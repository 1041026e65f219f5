import UprobeStats.Theorems.BpfLoadReading

/-! An ELF object as a value: the headers, names, data and symbols in its bytes, and what a successful read of each
    of them gives. -/

namespace UprobeStats.BpfLoad
open Effect

section Object
variable (elfFile : List UInt8)

def ehdrOf : Elf64Ehdr := .decode ((elfFile.drop 0).take 64)

def headersOf : List Elf64Shdr :=
  decodeArray Elf64Shdr.decode 64 (ehdrOf elfFile).eShnum
    ((elfFile.drop (ehdrOf elfFile).eShoff).take ((ehdrOf elfFile).eShnum * (ehdrOf elfFile).eShentsize))

def dataOf (sh : Elf64Shdr) : List UInt8 := (elfFile.drop sh.shOffset).take sh.shSize

/-- The data of the section with the names. -/
def strtabOf : List UInt8 := ((headersOf elfFile)[(ehdrOf elfFile).eShstrndx]?.map (dataOf elfFile)).getD []

/-- A name, when an `int` holds its offset. -/
def nameAt (nameOff : Nat) : Option (List UInt8) :=
  if nameOff < 2 ^ 31 then Text.untilNul ((strtabOf elfFile).drop nameOff) else none

/-- The symbols of the first symbol table. -/
def symbolsOf : List Elf64Sym :=
  match (headersOf elfFile).find? fun sh => sh.shType = shtSymtab with
  | some sh => decodeArray Elf64Sym.decode 24 ((dataOf elfFile sh).length / 24) (dataOf elfFile sh)
  | none => []

/-- Each section has a name. -/
structure Named : Prop where
  index : (ehdrOf elfFile).eShstrndx < (headersOf elfFile).length
  names : ∀ sh ∈ headersOf elfFile, (nameAt elfFile sh.shName).isSome

/-- The index of the first section of a name. -/
def firstNamed (name : List UInt8) : Option Nat :=
  (headersOf elfFile).findIdx? fun sh => nameAt elfFile sh.shName = some name

/-- The symbols that are looked up under the name of a section. -/
def symbolsNamed (name : List UInt8) (symbolType : Option Nat) : List Elf64Sym :=
  match firstNamed elfFile name with
  | some i => (symbolsOf elfFile).filter fun sym => sym.isNamed i symbolType
  | none => []

/-- The program definitions, when there is a section of whole ones. -/
def progDefsOf : Option (List BpfProgDef) :=
  ((headersOf elfFile).find? fun sh => nameAt elfFile sh.shName = some (Text.utf8 "progs")).bind fun sh =>
    if (dataOf elfFile sh).length % 92 = 0 then
      some (decodeArray BpfProgDef.decode 92 ((dataOf elfFile sh).length / 92) (dataOf elfFile sh))
    else none

/-- The map definitions, when there is a section of whole ones. -/
def mapDefsOf : Option (List BpfMapDef) :=
  ((headersOf elfFile).find? fun sh => nameAt elfFile sh.shName = some (Text.utf8 "maps")).bind fun sh =>
    if (dataOf elfFile sh).length % 120 = 0 then
      some (decodeArray BpfMapDef.decode 120 ((dataOf elfFile sh).length / 120) (dataOf elfFile sh))
    else none

/-- Each section and each symbol has a name. -/
structure Readable : Prop extends Named elfFile where
  symbols : ∀ sym ∈ symbolsOf elfFile, (nameAt elfFile sym.stName).isSome

instance (elfFile : List UInt8) : Decidable (Named elfFile) :=
  decidable_of_iff ((ehdrOf elfFile).eShstrndx < (headersOf elfFile).length ∧
    ∀ sh ∈ headersOf elfFile, (nameAt elfFile sh.shName).isSome)
    ⟨fun ⟨h, h'⟩ => ⟨h, h'⟩, fun ⟨h, h'⟩ => ⟨h, h'⟩⟩

instance (elfFile : List UInt8) : Decidable (Readable elfFile) :=
  decidable_of_iff (Named elfFile ∧ ∀ sym ∈ symbolsOf elfFile, (nameAt elfFile sym.stName).isSome)
    ⟨fun ⟨h, h'⟩ => ⟨h, h'⟩, fun ⟨h, h'⟩ => ⟨h, h'⟩⟩

def nameOf (sym : Elf64Sym) : List UInt8 := (nameAt elfFile sym.stName).getD []

/-- The names of the symbols under the name of a section, in the order of their addresses. -/
def symbolNames (platform : Platform) (name : List UInt8) (symbolType : Option Nat) : List (List UInt8) :=
  match firstNamed elfFile name with
  | some i => ((platform.sort (symbolsOf elfFile)).filter fun sym => sym.isNamed i symbolType).map (nameOf elfFile)
  | none => []

structure Section where
  index : Nat
  name : List UInt8
  data : List UInt8
  deriving DecidableEq

def sectionsFrom : Nat → List Elf64Shdr → List Section
  | _, [] => []
  | i, sh :: shs => ⟨i, (nameAt elfFile sh.shName).getD [], dataOf elfFile sh⟩ :: sectionsFrom (i + 1) shs

/-- The section table. -/
def sectionsOf : List Section := sectionsFrom elfFile 0 (headersOf elfFile)

end Object

theorem symbolsNamed_eq_nil {elfFile name : List UInt8} {symbolType : Option Nat}
    (h : symbolsOf elfFile = [] ∨ firstNamed elfFile name = none) : symbolsNamed elfFile name symbolType = [] := by
  rw [symbolsNamed]
  rcases h with hnone | hnone
  · rw [hnone]
    cases firstNamed elfFile name <;> rfl
  · rw [hnone]

theorem firstNamed_eq_some {elfFile name : List UInt8} {i : Nat} (h : firstNamed elfFile name = some i) :
    ∃ sh, (headersOf elfFile)[i]? = some sh ∧ nameAt elfFile sh.shName = some name := by
  obtain ⟨hi, hname, -⟩ := List.findIdx?_eq_some_iff_getElem.mp h
  exact ⟨_, List.getElem?_eq_getElem hi, of_decide_eq_true hname⟩

/-! ### What a successful read gives -/

section Reading
variable {platform : Platform} {elfFile : List UInt8} {w w' : World}

theorem readAt_eq_ok {offset size : Nat} {readError : Ret} {bs : List UInt8}
    (h : (readAt elfFile offset size readError).run w = .ok bs w') : bs = (elfFile.drop offset).take size := by
  rw [readAt, run_get_bind] at h
  split at h
  · cases h
  · split at h
    · exact (pure_eq_ok.mp h).1.symm
    · cases h

theorem readElfHeader_eq_ok {eh : Elf64Ehdr} (h : (readElfHeader elfFile).run w = .ok eh w') : eh = ehdrOf elfFile := by
  obtain ⟨bs, w₁, hbs, h⟩ := bind_eq_ok.mp h
  obtain rfl := readAt_eq_ok hbs
  exact (pure_eq_ok.mp h).1.symm

theorem readSectionHeadersAll_eq_ok {shTable : List Elf64Shdr}
    (h : (readSectionHeadersAll elfFile).run w = .ok shTable w') : shTable = headersOf elfFile := by
  obtain ⟨eh, w₁, heh, h⟩ := bind_eq_ok.mp h
  obtain rfl := readElfHeader_eq_ok heh
  split at h
  · cases h
  · obtain ⟨bs, w₂, hbs, hpure⟩ := bind_eq_ok.mp h
    obtain rfl := readAt_eq_ok hbs
    exact (pure_eq_ok.mp hpure).1.symm

theorem readSection_eq_ok {sh : Elf64Shdr} {data : List UInt8}
    (h : (readSection platform elfFile sh).run w = .ok data w') : data = dataOf elfFile sh := by
  unfold readSection at h
  split at h
  · cases h
  · exact readAt_eq_ok h

theorem elementAt_eq_ok {α : Type} {xs : List α} {i : Nat} {beyond : Nat → α} {x y : α} (hx : xs[i]? = some x)
    (h : (elementAt xs i beyond).run w = .ok y w') : y = x := by
  rw [elementAt, hx] at h
  exact (pure_eq_ok.mp h).1.symm

theorem readSectionByIdx_eq_ok {i : Nat} {sh : Elf64Shdr} {data : List UInt8} (hsh : (headersOf elfFile)[i]? = some sh)
    (h : (readSectionByIdx platform elfFile i).run w = .ok data w') : data = dataOf elfFile sh := by
  obtain ⟨shTable, w₁, htable, h⟩ := bind_eq_ok.mp h
  obtain rfl := readSectionHeadersAll_eq_ok htable
  obtain ⟨sh', w₂, hsh', hdata⟩ := bind_eq_ok.mp h
  obtain rfl := elementAt_eq_ok hsh hsh'
  exact readSection_eq_ok hdata

theorem readSectionHeaderStrtab_eq_ok {secStrTab : List UInt8} (hnamed : Named elfFile)
    (h : (readSectionHeaderStrtab platform elfFile).run w = .ok secStrTab w') : secStrTab = strtabOf elfFile := by
  obtain ⟨eh, w₁, heh, h⟩ := bind_eq_ok.mp h
  obtain rfl := readElfHeader_eq_ok heh
  have hsh := List.getElem?_eq_getElem hnamed.index
  rw [readSectionByIdx_eq_ok hsh h, strtabOf, hsh]
  rfl

theorem nameAt_eq_some {nameOff : Nat} {name : List UInt8} :
    nameAt elfFile nameOff = some name ↔
      nameOff < 2 ^ 31 ∧ Text.untilNul ((strtabOf elfFile).drop nameOff) = some name := by
  rw [nameAt, Option.ite_none_right_eq_some]

theorem getSymName_eq_ok {nameOff : Nat} {name name' : List UInt8} (hnamed : Named elfFile)
    (hname : nameAt elfFile nameOff = some name) (h : (getSymName platform elfFile nameOff).run w = .ok name' w') :
    name' = name := by
  obtain ⟨hlt, htext⟩ := nameAt_eq_some.mp hname
  obtain ⟨secStrTab, w₁, htab, h⟩ := bind_eq_ok.mp h
  obtain rfl := readSectionHeaderStrtab_eq_ok hnamed htab
  rw [if_neg (Nat.not_le.mpr hlt)] at h
  split at h
  · cases h
  · rw [cStringAt, htext] at h
    exact (pure_eq_ok.mp h).1.symm

/-- Where each section has a name, the section that is read is the first of the name. -/
theorem findSection_eq {name : List UInt8} : ∀ {shs : List Elf64Shdr}, (∀ sh ∈ shs, (nameAt elfFile sh.shName).isSome) →
    findSection platform elfFile (strtabOf elfFile) name shs =
      (shs.find? fun sh => nameAt elfFile sh.shName = some name).elim (fail minusTwo) (readSection platform elfFile)
  | [], _ => rfl
  | sh :: shs, hnames => by
    obtain ⟨hsh, hshs⟩ := List.forall_mem_cons.mp hnames
    obtain ⟨secname, hname⟩ := Option.isSome_iff_exists.mp hsh
    rw [findSection, cStringAt, (nameAt_eq_some.mp hname).2, List.find?_cons, hname]
    show (if secname = name then readSection platform elfFile sh
      else findSection platform elfFile (strtabOf elfFile) name shs) = _
    by_cases heq : secname = name
    · rw [if_pos heq, decide_eq_true (congrArg some heq)]
      rfl
    · rw [if_neg heq, findSection_eq hshs, decide_eq_false fun hsome => heq (Option.some.inj hsome)]

theorem readSectionByName_eq_ok (hnamed : Named elfFile) {name data : List UInt8}
    (h : (readSectionByName platform elfFile name).run w = .ok data w') :
    ∃ sh, ((headersOf elfFile).find? fun sh => nameAt elfFile sh.shName = some name) = some sh ∧ data = dataOf elfFile sh := by
  obtain ⟨shTable, w₁, htable, h⟩ := bind_eq_ok.mp h
  obtain ⟨secStrTab, w₂, htab, h⟩ := bind_eq_ok.mp h
  obtain rfl := readSectionHeadersAll_eq_ok htable
  obtain rfl := readSectionHeaderStrtab_eq_ok hnamed htab
  rw [findSection_eq hnamed.names] at h
  cases hfind : (headersOf elfFile).find? fun sh => nameAt elfFile sh.shName = some name with
  | none =>
    rw [hfind] at h
    cases h
  | some sh =>
    rw [hfind] at h
    exact ⟨sh, rfl, readSection_eq_ok h⟩

theorem readProgDefs_eq_ok (hnamed : Named elfFile) {pd : List BpfProgDef}
    (h : (readProgDefs platform elfFile).run w = .ok pd w') : progDefsOf elfFile = some pd := by
  obtain ⟨pdData, w₁, hdata, h⟩ := bind_eq_ok.mp h
  obtain ⟨sh, hsh, rfl⟩ := readSectionByName_eq_ok hnamed hdata
  split at h
  · cases h
  · rename_i hwhole
    rw [progDefsOf, hsh, Option.bind_some, if_pos (not_not.mp hwhole), (pure_eq_ok.mp h).1]

theorem readSymTab_eq_ok {sort : Bool} {symtab : List Elf64Sym}
    (h : (readSymTab platform elfFile sort).run w = .ok symtab w') :
    symtab = if sort then platform.sort (symbolsOf elfFile) else symbolsOf elfFile := by
  obtain ⟨secData, w₁, hdata, h⟩ := bind_eq_ok.mp h
  obtain ⟨shTable, w₂, htable, hdata⟩ := bind_eq_ok.mp hdata
  obtain rfl := readSectionHeadersAll_eq_ok htable
  have hsyms : decodeArray Elf64Sym.decode 24 (secData.length / 24) secData = symbolsOf elfFile := by
    rw [symbolsOf]
    cases hfind : (headersOf elfFile).find? fun sh => sh.shType = shtSymtab with
    | some sh =>
      rw [hfind] at hdata
      rw [readSection_eq_ok hdata]
    | none =>
      rw [hfind] at hdata
      cases hdata
  rw [← (pure_eq_ok.mp h).1, hsyms]

theorem tried_eq_ok {α : Type} {x : Prog α} {r : Except Ret α} : (tried x).run w = .ok r w' ↔
    (∃ a, r = .ok a ∧ x.run w = .ok a w') ∨ ∃ code, r = .error code ∧ x.run w = .error (.ret code) w' := by
  rw [tried, EStateM.run_bind, run_attempt]
  rcases x.run w with ⟨a, t⟩ | ⟨code | _, t⟩
  · simp [eq_comm]
  · constructor
    · intro h
      cases h
      exact Or.inr ⟨code, rfl, rfl⟩
    · rintro (⟨a, -, h⟩ | ⟨code, rfl, h⟩)
      · cases h
      · cases h
        rfl
  · refine iff_of_false (fun h => ?_) (by simp)
    cases h

theorem checked_eq_ok {α : Type} {result : α × Option Ret} {a : α} :
    (checked result).run w = .ok a w' ↔ result = (a, none) ∧ w' = w := by
  obtain ⟨b, ret⟩ := result
  cases ret with
  | none => simp [checked, eq_comm]
  | some code =>
    refine iff_of_false (fun h => ?_) fun h => ?_
    · cases h
    · cases h.1

/-! ### Names of symbols -/

theorem of_drop_eq_cons {α : Type} {xs rest : List α} {x : α} {i : Nat} (h : xs.drop i = x :: rest) :
    xs[i]? = some x ∧ xs.drop (i + 1) = rest := by
  rw [← List.head?_drop, ← List.tail_drop, h]
  exact ⟨rfl, rfl⟩

theorem lookup_zip {α : Type} : ∀ {names : List (List UInt8)} {xs : List α} (name : List UInt8), names.length = xs.length →
    (names.zip xs).lookup name = (names.findIdx? (· = name)).bind fun j => xs[j]?
  | [], [], _, _ => rfl
  | n :: names, x :: xs, name, h => by
    rw [List.zip_cons_cons, List.lookup_cons, List.findIdx?_cons]
    by_cases heq : n = name
    · subst heq
      simp
    · rw [lookup_zip name (Nat.succ.inj h), if_neg (by simpa using heq), beq_false_of_ne (Ne.symm heq)]
      cases names.findIdx? (· = name) <;> rfl

theorem findSectionIdx_eq_ok (hnamed : Named elfFile) {sectionName : List UInt8} {idx : Nat} :
    ∀ {i : Nat} {shs : List Elf64Shdr} {w w' : World}, (∀ sh ∈ shs, (nameAt elfFile sh.shName).isSome) →
    (findSectionIdx platform elfFile sectionName i shs).run w = .ok idx w' →
    ∃ j, idx = i + j ∧ shs.findIdx? (fun sh => nameAt elfFile sh.shName = some sectionName) = some j
  | _, [], _, _, _, h => by cases h
  | i, sh :: shs, w, w', hnames, h => by
    obtain ⟨hsh, hshs⟩ := List.forall_mem_cons.mp hnames
    obtain ⟨name, hname⟩ := Option.isSome_iff_exists.mp hsh
    obtain ⟨name', w₁, hget, h⟩ := bind_eq_ok.mp h
    obtain rfl := getSymName_eq_ok hnamed hname hget
    rw [List.findIdx?_cons, hname]
    split at h
    · rename_i heq
      exact ⟨0, (pure_eq_ok.mp h).1.symm, if_pos (decide_eq_true (congrArg some heq))⟩
    · rename_i hne
      obtain ⟨j, rfl, hj⟩ := findSectionIdx_eq_ok hnamed hshs h
      refine ⟨j + 1, by omega, ?_⟩
      rw [if_neg (by simpa using hne), hj]
      rfl

theorem length_of_readNames : ∀ {syms : List Elf64Sym} {names : List (List UInt8)} {w w' : World},
    (readNames platform elfFile syms).run w = .ok (names, none) w' → names.length = syms.length
  | [], names, w, w', h => by
    obtain ⟨hnames, -⟩ := Prod.mk.inj (pure_eq_ok.mp h).1
    rw [← hnames]
    rfl
  | sym :: syms, names, w, w', h => by
    obtain ⟨r, w₁, -, h⟩ := bind_eq_ok.mp h
    cases r with
    | error ret => cases h
    | ok name =>
      obtain ⟨⟨rest, ret⟩, w₂, hrest, h⟩ := bind_eq_ok.mp h
      obtain ⟨hnames, rfl⟩ := Prod.mk.inj (pure_eq_ok.mp h).1
      rw [← hnames, List.length_cons, length_of_readNames hrest, List.length_cons]

theorem readNames_isPrefix (hnamed : Named elfFile) {ret : Option Ret} :
    ∀ {syms : List Elf64Sym} {names : List (List UInt8)} {w w' : World},
    (∀ sym ∈ syms, (nameAt elfFile sym.stName).isSome) →
    (readNames platform elfFile syms).run w = .ok (names, ret) w' → names <+: syms.map (nameOf elfFile)
  | [], names, w, w', _, h => by
    obtain ⟨rfl, -⟩ := Prod.mk.inj (pure_eq_ok.mp h).1
    exact List.prefix_refl _
  | sym :: syms, names, w, w', hsyms, h => by
    obtain ⟨hsym, hsyms⟩ := List.forall_mem_cons.mp hsyms
    obtain ⟨name, hname⟩ := Option.isSome_iff_exists.mp hsym
    obtain ⟨r, w₁, hread, h⟩ := bind_eq_ok.mp h
    rcases tried_eq_ok.mp hread with ⟨name', rfl, hget⟩ | ⟨code, rfl, -⟩
    · have hsame : name' = name := getSymName_eq_ok hnamed hname hget
      obtain ⟨⟨rest, ret'⟩, w₂, hrest, h⟩ := bind_eq_ok.mp h
      obtain ⟨rfl, rfl⟩ := Prod.mk.inj (pure_eq_ok.mp h).1
      rw [List.map_cons, nameOf, hname, Option.getD_some, hsame]
      exact List.cons_prefix_cons.mpr ⟨rfl, readNames_isPrefix hnamed hsyms hrest⟩
    · obtain ⟨rfl, -⟩ := Prod.mk.inj (pure_eq_ok.mp h).1
      exact List.nil_prefix

/-- The symbols whose names are read are those of the first section of the name, in the order of their addresses. -/
theorem sectionSymbols_eq_ok (hnamed : Named elfFile) {sectionName : List UInt8} {symbolType : Option Nat}
    {syms : List Elf64Sym} (h : (do
      let symtab ← readSymTab platform elfFile true
      let shTable ← readSectionHeadersAll elfFile
      let secIdx ← findSectionIdx platform elfFile sectionName 0 shTable
      pure (symtab.filter fun sym => sym.isNamed secIdx symbolType) : Prog _).run w = .ok syms w') :
    ∃ idx, firstNamed elfFile sectionName = some idx ∧
      syms = (platform.sort (symbolsOf elfFile)).filter fun sym => sym.isNamed idx symbolType := by
  obtain ⟨symtab, w₁, htab, h⟩ := bind_eq_ok.mp h
  obtain rfl := readSymTab_eq_ok htab
  obtain ⟨shTable, w₂, htable, h⟩ := bind_eq_ok.mp h
  obtain rfl := readSectionHeadersAll_eq_ok htable
  obtain ⟨idx, w₃, hidx, h⟩ := bind_eq_ok.mp h
  obtain ⟨j, rfl, hj⟩ := findSectionIdx_eq_ok hnamed hnamed.names hidx
  exact ⟨0 + j, by rw [Nat.zero_add]; exact hj, (pure_eq_ok.mp h).1.symm⟩

theorem getSectionSymNames_eq_ok (hnamed : Named elfFile) {sectionName : List UInt8} {symbolType : Option Nat}
    {names : List (List UInt8)}
    (h : (getSectionSymNames platform elfFile sectionName symbolType).run w = .ok (names, none) w') :
    ∃ idx w₁, firstNamed elfFile sectionName = some idx ∧
      (readNames platform elfFile ((platform.sort (symbolsOf elfFile)).filter fun sym => sym.isNamed idx symbolType)).run w₁ =
        .ok (names, none) w' := by
  obtain ⟨found, w₁, hfound, h⟩ := bind_eq_ok.mp h
  rcases tried_eq_ok.mp hfound with ⟨syms, rfl, hsyms⟩ | ⟨code, rfl, -⟩
  · obtain ⟨idx, hidx, rfl⟩ := sectionSymbols_eq_ok hnamed hsyms
    exact ⟨idx, w₁, hidx, h⟩
  · cases h

theorem perm_sorted_symbolsNamed {sectionName : List UInt8} {symbolType : Option Nat} {idx : Nat}
    (hidx : firstNamed elfFile sectionName = some idx) :
    ((platform.sort (symbolsOf elfFile)).filter fun sym => sym.isNamed idx symbolType).Perm
      (symbolsNamed elfFile sectionName symbolType) := by
  rw [symbolsNamed, hidx]
  exact (platform.perm_sort _).filter _

theorem Readable.sectionSymbols (hreadable : Readable elfFile) {sectionName : List UInt8} {symbolType : Option Nat} :
    ∀ sym ∈ symbolsNamed elfFile sectionName symbolType, (nameAt elfFile sym.stName).isSome := by
  intro sym hsym
  rw [symbolsNamed] at hsym
  cases hidx : firstNamed elfFile sectionName with
  | none =>
    rw [hidx] at hsym
    cases hsym
  | some idx =>
    rw [hidx] at hsym
    exact hreadable.symbols sym (List.mem_of_mem_filter hsym)

section SymbolNames
variable {sectionName : List UInt8} {symbolType : Option Nat} {names : List (List UInt8)} (hnamed : Named elfFile)
  (hsymbols : ∀ sym ∈ symbolsNamed elfFile sectionName symbolType, (nameAt elfFile sym.stName).isSome)
include hnamed hsymbols

/-- The names that are read before an error are the first of those names. -/
theorem isPrefix_symbolNames {ret : Option Ret}
    (h : (getSectionSymNames platform elfFile sectionName symbolType).run w = .ok (names, ret) w') :
    names <+: symbolNames elfFile platform sectionName symbolType := by
  obtain ⟨found, w₁, hfound, h⟩ := bind_eq_ok.mp h
  rcases tried_eq_ok.mp hfound with ⟨syms, rfl, hsyms⟩ | ⟨code, rfl, -⟩
  · obtain ⟨idx, hidx, rfl⟩ := sectionSymbols_eq_ok hnamed hsyms
    rw [symbolNames, hidx]
    exact readNames_isPrefix hnamed (fun sym hsym => hsymbols sym ((perm_sorted_symbolsNamed hidx).mem_iff.mp hsym)) h
  · obtain ⟨rfl, -⟩ := Prod.mk.inj (pure_eq_ok.mp h).1
    exact List.nil_prefix

theorem symbolNames_of_ok
    (h : (getSectionSymNames platform elfFile sectionName symbolType).run w = .ok (names, none) w') :
    names = symbolNames elfFile platform sectionName symbolType := by
  obtain ⟨idx, w₁, hidx, hnames⟩ := getSectionSymNames_eq_ok hnamed h
  refine (isPrefix_symbolNames hnamed hsymbols h).eq_of_length ?_
  rw [length_of_readNames hnames, symbolNames, hidx, List.length_map]

end SymbolNames

end Reading
end UprobeStats.BpfLoad
