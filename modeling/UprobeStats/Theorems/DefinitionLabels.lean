import UprobeStats.Theorems.CreateMaps
import UprobeStats.Theorems.SectionIndexes

/-! The pairs of a definition and its symbol. The definitions are an array, and the names of their symbols are read in
    the order of the addresses, so that both have one order whatever the order of the symbol table is. -/

namespace UprobeStats.BpfLoad
open Effect

section Labels
variable (elfFile sectionName : List UInt8)

/-- The symbols of a section are one for each definition, at the offset of its definition. -/
structure Labels (size count : Nat) (labels : List Elf64Sym) : Prop where
  perm : (symbolsNamed elfFile sectionName none).Perm labels
  length : labels.length = count
  value : ∀ i (hi : i < labels.length), labels[i].stValue = size * i

/-- The names of the section are those, whenever all of them are read. -/
def NamesRead (platform : Platform) (names : List (List UInt8)) : Prop :=
  (∀ w w' read, (getSectionSymNames platform elfFile sectionName none).run w = .ok (read, none) w' → read = names) ∧
    (WellFormed elfFile → names ≠ [] → ∀ w, w.failbit = false →
      (getSectionSymNames platform elfFile sectionName none).run w = .ok (names, none) w)

/-- A first function of the first section of a name. -/
def FirstFunction (sym : Elf64Sym) : Prop :=
  sym ∈ symbolsNamed elfFile sectionName (some sttFunc) ∧
    ∀ other ∈ symbolsNamed elfFile sectionName (some sttFunc), sym.stValue ≤ other.stValue

end Labels

section Code
variable (platform : Platform) (elfFile : List UInt8)

def headerName (sh : Elf64Shdr) : List UInt8 := (nameAt elfFile sh.shName).getD []

/-- The section is named after a type of programs. -/
def Elf64Shdr.isProgram (sh : Elf64Shdr) : Bool :=
  decide (getSectionType platform (headerName elfFile sh) ≠ bpfProgTypeUnspec)

/-- A function lies in the first section of its name. -/
def Elf64Shdr.hasFunction (sh : Elf64Shdr) : Bool :=
  decide (symbolsNamed elfFile (headerName elfFile sh) (some sttFunc) ≠ [])

/-- The code sections: the programs that are not empty, up to a program without a function. -/
def codedSections (shs : List Elf64Shdr) : List Elf64Shdr :=
  (shs.takeWhile fun sh => !sh.isProgram platform elfFile || sh.hasFunction elfFile).filter fun sh =>
    sh.isProgram platform elfFile && decide (dataOf elfFile sh ≠ [])

/-- Each program has an allowed type, and one that is not empty has a section behind it. -/
structure CodeAllowed (allowed : Option (List BpfProgType)) (ss : List Section) : Prop where
  types : ∀ s ∈ ss, s.isProgram platform → isAllowedType platform (getSectionType platform s.name) allowed = true
  last : ∀ s ∈ ss.getLast?, ¬(s.isProgram platform ∧ s.data ≠ [])

end Code

section Paired
variable (platform : Platform) (elfFile : List UInt8) (names : List (List UInt8))

/-- The entry of a section has the definition that is labelled for a first function, if there is one. -/
def CodeSection.Paired (defs : List (List UInt8 × BpfProgDef)) (sh : Elf64Shdr) (cs : CodeSection) : Prop :=
  ∃ name sym, nameAt elfFile sh.shName = some name ∧ cs.name = (name.map fun b => if b = 47 then 95 else b) ∧
    cs.data = dataOf elfFile sh ∧ FirstFunction elfFile name sym ∧
    cs.progDef = defs.lookup (nameOf elfFile sym ++ Text.utf8 "_def")

/-- The entries of a run that succeeds are those of the code sections, each with the definition of its function. In a
    well-formed object with definitions it succeeds when each program may be loaded and has a section behind it. -/
structure CodePaired (allowed : Option (List BpfProgType)) : Prop where
  paired : ∀ w w' css, (readCodeSections platform elfFile allowed).run w = .ok css w' → ∃ pd ∈ progDefsOf elfFile,
    (codedSections platform elfFile (headersOf elfFile)).Forall₂ (CodeSection.Paired elfFile (names.zip pd)) css
  succeeds : WellFormed elfFile → names ≠ [] → (progDefsOf elfFile).isSome →
    CodeAllowed platform allowed (sectionsOf elfFile) → ∀ w, w.failbit = false →
    ∃ css, (readCodeSections platform elfFile allowed).run w = .ok css w

/-- A run makes no call, and succeeds only without definitions, or it creates the map of each definition under the name
    of its symbol, one after the other. In a well-formed object with definitions it does that. -/
structure MapsPaired (elfPath locationPrefix : List UInt8) : Prop where
  cases : ∀ w, (SameKernel w (after ((createMaps platform elfFile elfPath locationPrefix).run w)) ∧
      ∀ fds w', (createMaps platform elfFile elfPath locationPrefix).run w = .ok fds w' →
        fds = [] ∧ mapDefsOf elfFile = none) ∨
    ∃ w₁ md, SameKernel w w₁ ∧ mapDefsOf elfFile = some md ∧
      (createMaps platform elfFile elfPath locationPrefix).run w = ((md.zip names).mapM fun m =>
        createMap platform locationPrefix (pathToObjName elfPath) m.1 m.2).run w₁
  creates : WellFormed elfFile → names ≠ [] → ∀ md ∈ mapDefsOf elfFile, ∀ w, w.failbit = false →
    (createMaps platform elfFile elfPath locationPrefix).run w = ((md.zip names).mapM fun m =>
      createMap platform locationPrefix (pathToObjName elfPath) m.1 m.2).run w

end Paired

/-! ### Names -/

section Names
variable {platform : Platform} {elfFile sectionName : List UInt8} {symbolType : Option Nat} {size count : Nat}
  {labels : List Elf64Sym}

theorem Labels.pairwise (h : Labels elfFile sectionName size count labels) :
    labels.Pairwise fun a b => a.stValue ≤ b.stValue := by
  rw [List.pairwise_iff_getElem]
  intro i j hi hj hij
  rw [h.value i hi, h.value j hj]
  exact Nat.mul_le_mul_left size hij.le

theorem Labels.eq_of_value (h : Labels elfFile sectionName size count labels) (hsize : 0 < size) {a b : Elf64Sym}
    (ha : a ∈ labels) (hb : b ∈ labels) (hvalue : a.stValue = b.stValue) : a = b := by
  obtain ⟨i, hi, rfl⟩ := List.mem_iff_getElem.mp ha
  obtain ⟨j, hj, rfl⟩ := List.mem_iff_getElem.mp hb
  rw [h.value i hi, h.value j hj] at hvalue
  obtain rfl := Nat.eq_of_mul_eq_mul_left hsize hvalue
  rfl

/-- Sorting and filtering brings the labels into the order of their definitions. -/
theorem Labels.names_eq (h : Labels elfFile sectionName size count labels) (hsize : 0 < size) :
    symbolNames elfFile platform sectionName none = labels.map (nameOf elfFile) := by
  rw [symbolNames]
  cases hidx : firstNamed elfFile sectionName with
  | none =>
    have hnil : labels = [] := by
      have hperm := h.perm
      rwa [symbolsNamed_eq_nil (Or.inr hidx), List.nil_perm] at hperm
    rw [hnil, List.map_nil]
  | some idx =>
    have hperm : ((platform.sort (symbolsOf elfFile)).filter fun sym => sym.isNamed idx none).Perm labels :=
      (perm_sorted_symbolsNamed hidx).trans h.perm
    have hsorted := (platform.sorted_sort (symbolsOf elfFile)).filter fun sym => sym.isNamed idx none
    exact congrArg _ (hperm.eq_of_pairwise (fun a b ha hb hab hba =>
      h.eq_of_value hsize (hperm.mem_iff.mp ha) hb (Nat.le_antisymm hab hba)) hsorted h.pairwise)

theorem Labels.namesRead (hreadable : Readable elfFile) (h : Labels elfFile sectionName size count labels)
    (hsize : 0 < size) : NamesRead elfFile sectionName platform (labels.map (nameOf elfFile)) := by
  refine ⟨fun w w' read hread => ?_, fun hwf hne w hw => ?_⟩
  · rw [symbolNames_of_ok hreadable.toNamed hreadable.sectionSymbols hread, h.names_eq hsize]
  · obtain ⟨names, ret, hrun, hlength, hret⟩ := run_getSectionSymNames platform hwf hw sectionName none
    have hsome : symbolsNamed elfFile sectionName none ≠ [] := by
      intro hnil
      have hperm := h.perm
      rw [hnil, List.nil_perm] at hperm
      exact hne (by rw [hperm, List.map_nil])
    obtain rfl : ret = none := hret.resolve_right fun hnone => hsome (symbolsNamed_eq_nil hnone)
    rw [hrun, symbolNames_of_ok hreadable.toNamed hreadable.sectionSymbols hrun, h.names_eq hsize]

theorem firstFunction_of_names {name csSymName : List UInt8} {rest : List (List UInt8)}
    (h : symbolNames elfFile platform name (some sttFunc) = csSymName :: rest) :
    ∃ sym, FirstFunction elfFile name sym ∧ nameOf elfFile sym = csSymName := by
  rw [symbolNames] at h
  cases hidx : firstNamed elfFile name with
  | none =>
    rw [hidx] at h
    cases h
  | some idx =>
    rw [hidx] at h
    obtain ⟨sym, syms, hsyms, rfl, -⟩ := List.map_eq_cons_iff.mp h
    have hperm : ((platform.sort (symbolsOf elfFile)).filter fun sym => sym.isNamed idx (some sttFunc)).Perm
        (symbolsNamed elfFile name (some sttFunc)) := perm_sorted_symbolsNamed hidx
    have hsorted := (platform.sorted_sort (symbolsOf elfFile)).filter fun sym => sym.isNamed idx (some sttFunc)
    rw [hsyms] at hperm hsorted
    refine ⟨sym, ⟨hperm.mem_iff.mp (List.mem_cons_self ..), fun other hother => ?_⟩, rfl⟩
    rcases List.mem_cons.mp (hperm.mem_iff.mpr hother) with rfl | hmem
    · exact Nat.le_refl _
    · exact (List.pairwise_cons.mp hsorted).1 other hmem

end Names

/-! ### Code sections -/

section Loop
variable {platform : Platform} {elfFile : List UInt8} {allowed : Option (List BpfProgType)} {pd : List BpfProgDef}
  {progDefNames : List (List UInt8)}

theorem findProgDef_eq_ok (hlength : progDefNames.length = pd.length) {name : List UInt8} {progDef : Option BpfProgDef}
    {w w' : World} (h : (findProgDef platform pd progDefNames name).run w = .ok progDef w') :
    progDef = (progDefNames.zip pd).lookup name := by
  rw [lookup_zip name hlength]
  rw [findProgDef] at h
  cases hfind : progDefNames.findIdx? (· = name) with
  | none =>
    rw [hfind] at h
    exact (pure_eq_ok.mp h).1.symm
  | some j =>
    have hj : j < pd.length := hlength ▸ (List.findIdx?_eq_some_iff_findIdx_eq.mp hfind).1
    rw [hfind] at h
    obtain ⟨found, w₁, hfound, h⟩ := bind_eq_ok.mp h
    obtain rfl := elementAt_eq_ok (List.getElem?_eq_getElem hj) hfound
    rw [Option.bind_some, List.getElem?_eq_getElem hj]
    exact (pure_eq_ok.mp h).1.symm

theorem headerName_eq {sh : Elf64Shdr} {name : List UInt8} (h : nameAt elfFile sh.shName = some name) :
    headerName elfFile sh = name := by
  rw [headerName, h, Option.getD_some]

section Coded
variable {sh : Elf64Shdr} {shs : List Elf64Shdr}

theorem codedSections_other (h : sh.isProgram platform elfFile = false) :
    codedSections platform elfFile (sh :: shs) = codedSections platform elfFile shs := by
  rw [codedSections, List.takeWhile_cons_of_pos (by rw [h]; rfl), List.filter_cons_of_neg (by simp [h]), codedSections]

theorem codedSections_stop (h : sh.isProgram platform elfFile = true) (hfunction : sh.hasFunction elfFile = false) :
    codedSections platform elfFile (sh :: shs) = [] := by
  rw [codedSections, List.takeWhile_cons_of_neg (by rw [h, hfunction]; decide), List.filter_nil]

theorem codedSections_program (h : sh.isProgram platform elfFile = true) (hfunction : sh.hasFunction elfFile = true) :
    codedSections platform elfFile (sh :: shs) =
      if dataOf elfFile sh = [] then codedSections platform elfFile shs else sh :: codedSections platform elfFile shs := by
  rw [codedSections, List.takeWhile_cons_of_pos (by rw [h, hfunction]; rfl), List.filter_cons, h, Bool.true_and]
  by_cases hempty : dataOf elfFile sh = []
  · rw [if_pos hempty, if_neg (by simp [hempty]), codedSections]
  · rw [if_neg hempty, if_pos (decide_eq_true hempty), codedSections]

end Coded

/-- The symbols of a section that is read have as many names. -/
theorem hasFunction_of_names {sh : Elf64Shdr} {name : List UInt8} {names : List (List UInt8)} {w w' : World}
    (hreadable : Readable elfFile) (hname : nameAt elfFile sh.shName = some name)
    (h : (getSectionSymNames platform elfFile name (some sttFunc)).run w = .ok (names, none) w') :
    sh.hasFunction elfFile = decide (names ≠ []) := by
  obtain ⟨idx, w₁, hfirst, hnames⟩ := getSectionSymNames_eq_ok hreadable.toNamed h
  rw [Elf64Shdr.hasFunction, headerName_eq hname, decide_eq_decide, ← List.length_pos_iff, ← List.length_pos_iff,
    length_of_readNames hnames, (perm_sorted_symbolsNamed hfirst).length_eq]

theorem readCodeSectionsFrom_paired (hreadable : Readable elfFile) (hlength : progDefNames.length = pd.length) :
    ∀ {shs : List Elf64Shdr} {i : Nat} {css : List CodeSection} {w w' : World}, (headersOf elfFile).drop i = shs →
    (readCodeSectionsFrom platform elfFile allowed pd progDefNames i shs).run w = .ok css w' →
    (codedSections platform elfFile shs).Forall₂ (CodeSection.Paired elfFile (progDefNames.zip pd)) css
  | [], i, css, w, w', _, h => by
    obtain rfl := (pure_eq_ok.mp h).1
    exact .nil
  | sh :: shs, i, css, w, w', hdrop, h => by
    obtain ⟨hi, hdrop'⟩ : (headersOf elfFile)[i]? = some sh ∧ (headersOf elfFile).drop (i + 1) = shs := of_drop_eq_cons hdrop
    obtain ⟨name, hname⟩ := Option.isSome_iff_exists.mp (hreadable.names sh (List.mem_of_getElem? hi))
    obtain ⟨oldName, w₁, hget, hcases⟩ := readCodeSectionsFrom_cases h
    obtain rfl := getSymName_eq_ok hreadable.toNamed hname hget
    rcases hcases with ⟨htype, hrest⟩ | ⟨htype, data, w₂, names, w₃, hdata, hnames, hcases⟩
    · have hother : sh.isProgram platform elfFile = false := by
        rw [Elf64Shdr.isProgram, headerName_eq hname]
        exact decide_eq_false (not_not_intro htype)
      rw [codedSections_other hother]
      exact readCodeSectionsFrom_paired hreadable hlength hdrop' hrest
    · have hprogram : sh.isProgram platform elfFile = true := by
        rw [Elf64Shdr.isProgram, headerName_eq hname]
        exact decide_eq_true htype
      have hfunction := hasFunction_of_names hreadable hname hnames
      obtain rfl := readSectionByIdx_eq_ok hi hdata
      have hread := symbolNames_of_ok hreadable.toNamed hreadable.sectionSymbols hnames
      rcases hcases with ⟨rfl, rfl⟩ |
        ⟨csSymName, rest, progDef, w₄, rfl, hprogDef, ⟨hempty, hrest⟩ | ⟨hne, relData, w₅, css', -, hrest, rfl⟩⟩
      · rw [codedSections_stop hprogram hfunction]
        exact .nil
      · rw [codedSections_program hprogram hfunction, if_pos hempty]
        exact readCodeSectionsFrom_paired hreadable hlength hdrop' hrest
      · obtain ⟨sym, hfirst, rfl⟩ := firstFunction_of_names hread.symm
        rw [codedSections_program hprogram hfunction, if_neg hne]
        exact .cons ⟨oldName, sym, hname, rfl, rfl, hfirst, findProgDef_eq_ok hlength hprogDef⟩
          (readCodeSectionsFrom_paired hreadable hlength hdrop' hrest)

/-! ### Runs that succeed -/

section Succeeds
variable {w : World} (hwf : WellFormed elfFile) (hsymbols : symbolsOf elfFile ≠ [])
include hwf hsymbols

/-- The names of a section of the object are all read. -/
theorem run_getSectionSymNames_of_header (hw : w.failbit = false) {sh : Elf64Shdr} {name : List UInt8} (symbolType : Option Nat)
    (hsh : sh ∈ headersOf elfFile) (hname : nameAt elfFile sh.shName = some name) : ∃ names,
    (getSectionSymNames platform elfFile name symbolType).run w = .ok (names, none) w := by
  obtain ⟨names, ret, hrun, -, hret⟩ := run_getSectionSymNames platform hwf hw name symbolType
  have hfirst : firstNamed elfFile name ≠ none := by
    intro hnone
    have hall := List.findIdx?_eq_none_iff.mp hnone sh hsh
    rw [hname, decide_eq_true rfl] at hall
    cases hall
  obtain rfl := hret.resolve_right fun h => h.elim hsymbols hfirst
  exact ⟨names, hrun⟩

theorem run_readCodeSectionsFrom (hlength : progDefNames.length ≤ pd.length) (hw : w.failbit = false) :
    ∀ {shs : List Elf64Shdr} {i : Nat}, (headersOf elfFile).drop i = shs →
    CodeAllowed platform allowed (sectionsFrom elfFile i shs) →
    ∃ css, (readCodeSectionsFrom platform elfFile allowed pd progDefNames i shs).run w = .ok css w
  | [], _, _, _ => ⟨[], rfl⟩
  | sh :: shs, i, hdrop, hcode => by
    obtain ⟨hi, hdrop'⟩ : (headersOf elfFile)[i]? = some sh ∧ (headersOf elfFile).drop (i + 1) = shs := of_drop_eq_cons hdrop
    have hsh : sh ∈ headersOf elfFile := List.mem_of_getElem? hi
    obtain ⟨oldName, -, hname⟩ := exists_text hwf (hwf.names sh hsh)
    rw [sectionsFrom, hname, Option.getD_some] at hcode
    obtain ⟨hallowed, hallowed'⟩ := List.forall_mem_cons.mp hcode.types
    have hcode' : CodeAllowed platform allowed (sectionsFrom elfFile (i + 1) shs) := by
      refine ⟨hallowed', fun s hs => hcode.last s ?_⟩
      rw [List.getLast?_cons, Option.mem_def.mp hs]
      rfl
    obtain ⟨css, hcss⟩ := run_readCodeSectionsFrom hlength hw hdrop' hcode'
    rw [readCodeSectionsFrom, EStateM.run_bind, run_getSymName platform hwf hw hname]
    dsimp only
    by_cases htype : getSectionType platform oldName = bpfProgTypeUnspec
    · rw [if_pos htype]
      exact ⟨css, hcss⟩
    rw [if_neg htype, if_neg (by simp [hallowed htype]), EStateM.run_bind, run_readSectionByIdx platform hwf hw hi]
    obtain ⟨names, hnames⟩ := @run_getSectionSymNames_of_header platform _ _ hwf hsymbols hw _ _ (some sttFunc) hsh hname
    dsimp only
    rw [EStateM.run_bind, hnames]
    dsimp only
    rw [EStateM.run_bind, checked_eq_ok.mpr ⟨rfl, rfl⟩]
    cases names with
    | nil => exact ⟨[], rfl⟩
    | cons csSymName rest =>
      obtain ⟨progDef, hprogDef⟩ : ∃ progDef,
          (findProgDef platform pd progDefNames (csSymName ++ Text.utf8 "_def")).run w = .ok progDef w :=
        run_findProgDef hlength _
      dsimp only
      rw [EStateM.run_bind, hprogDef]
      dsimp only
      by_cases hempty : dataOf elfFile sh = []
      · rw [if_pos hempty]
        exact ⟨css, hcss⟩
      · rw [if_neg hempty]
        cases shs with
        | nil => exact absurd ⟨htype, hempty⟩ (hcode.last _ rfl)
        | cons next shs =>
          obtain ⟨relData, hrel⟩ : ∃ relData, (readRelData platform elfFile i (next :: shs) oldName).run w = .ok relData w :=
            run_readRelData hwf hw (of_drop_eq_cons hdrop').1
          rw [EStateM.run_bind, hrel]
          dsimp only
          rw [EStateM.run_bind, hcss]
          exact ⟨_, rfl⟩

end Succeeds

end Loop

section Pairs
variable {platform : Platform} {elfFile elfPath locationPrefix : List UInt8} {allowed : Option (List BpfProgType)}
  {labels : List Elf64Sym}

/-- A name that is read is that of a symbol. -/
theorem Labels.symbolsOf_ne_nil {sectionName : List UInt8} {size count : Nat}
    (h : Labels elfFile sectionName size count labels) (hne : labels.map (nameOf elfFile) ≠ []) : symbolsOf elfFile ≠ [] := by
  intro hnil
  have hperm := h.perm
  rw [symbolsNamed_eq_nil (Or.inl hnil), List.nil_perm] at hperm
  exact hne (by rw [hperm, List.map_nil])

variable (hreadable : Readable elfFile)
include hreadable

theorem mapsPaired (hmaps : ∀ md ∈ mapDefsOf elfFile, Labels elfFile (Text.utf8 "maps") 120 md.length labels) :
    MapsPaired platform elfFile (labels.map (nameOf elfFile)) elfPath locationPrefix := by
  have hlength {md : List BpfMapDef} (hmd : mapDefsOf elfFile = some md) : (labels.map (nameOf elfFile)).length = md.length := by
    rw [List.length_map, (hmaps md hmd).length]
  refine ⟨fun w => ?_, fun hwf hne md hmd w hw => ?_⟩
  · have hcases : MapsRun platform elfFile elfPath locationPrefix w _ := mapsRun_createMaps hreadable.toNamed w
    rcases hcases with hnone | ⟨md, names, w₁, w₂, hsame, hmd, hnames, hrun⟩
    · exact .inl hnone
    · obtain rfl := symbolNames_of_ok hreadable.toNamed hreadable.sectionSymbols hnames
      refine .inr ⟨w₂, md, hsame, hmd, ?_⟩
      rw [hrun, (hmaps md hmd).names_eq (by decide), createMapsFrom_eq_mapM (by rw [hlength hmd, Nat.zero_add]), List.drop_zero]
  · obtain ⟨sh, hsh, hsome⟩ := Option.bind_eq_some_iff.mp hmd
    obtain ⟨hwhole, hdefs⟩ := Option.ite_none_right_eq_some.mp hsome
    obtain rfl := Option.some.inj hdefs
    have hread : (tried (readSectionByName platform elfFile (Text.utf8 "maps"))).run w = .ok (.ok (dataOf elfFile sh)) w := by
      refine tried_eq_ok.mpr (Or.inl ⟨_, rfl, ?_⟩)
      rw [run_readSectionByName platform hwf hw, hsh, Option.elim_some]
    have hread' : NamesRead elfFile (Text.utf8 "maps") platform (labels.map (nameOf elfFile)) :=
      (hmaps _ hmd).namesRead hreadable (by decide)
    have hnames := hread'.2 hwf hne w hw
    rw [createMaps, EStateM.run_bind, hread]
    dsimp only
    rw [if_neg (not_not_intro hwhole), EStateM.run_bind, hnames]
    dsimp only
    rw [EStateM.run_bind, checked_eq_ok.mpr ⟨rfl, rfl⟩]
    dsimp only
    rw [createMapsFrom_eq_mapM (by rw [hlength hmd, Nat.zero_add]), List.drop_zero]

theorem codePaired (hprogs : ∀ pd ∈ progDefsOf elfFile, Labels elfFile (Text.utf8 "progs") 92 pd.length labels) :
    CodePaired platform elfFile (labels.map (nameOf elfFile)) allowed := by
  refine ⟨fun w w' css h => ?_, fun hwf hne hsome hcode w hw => ?_⟩
  · obtain ⟨pd, names, ret, w₁, w₂, w₃, hpd, hnames, hret, hloop⟩ := readCodeSections_eq_ok h
    have hdefs := readProgDefs_eq_ok hreadable.toNamed hpd
    have hlabels := hprogs pd hdefs
    have hread : names = labels.map (nameOf elfFile) := by
      have hprefix := isPrefix_symbolNames hreadable.toNamed hreadable.sectionSymbols hnames
      rw [hlabels.names_eq (by decide)] at hprefix
      by_cases hnil : pd = []
      · have hzero : labels = [] := List.length_eq_zero_iff.mp (hlabels.length.trans (by rw [hnil]; rfl))
        rw [hzero] at hprefix ⊢
        exact List.prefix_nil.mp hprefix
      · rw [hret hnil] at hnames
        rw [symbolNames_of_ok hreadable.toNamed hreadable.sectionSymbols hnames, hlabels.names_eq (by decide)]
    have hlength : names.length = pd.length := by rw [hread, List.length_map, hlabels.length]
    exact ⟨pd, hdefs, hread ▸ readCodeSectionsFrom_paired hreadable hlength List.drop_zero hloop⟩
  · obtain ⟨pd, hpd⟩ := Option.isSome_iff_exists.mp hsome
    have hlabels := hprogs pd hpd
    have hread : (readProgDefs platform elfFile).run w = .ok pd w := by
      rcases run_readProgDefs platform hwf hw with ⟨pd', hpd', hrun⟩ | ⟨hnone, -⟩
      · obtain rfl := Option.some.inj (hpd.symm.trans hpd')
        exact hrun
      · rw [hpd] at hnone
        cases hnone
    have hread' : NamesRead elfFile (Text.utf8 "progs") platform (labels.map (nameOf elfFile)) :=
      hlabels.namesRead hreadable (by decide)
    have hnames := hread'.2 hwf hne w hw
    have hlength : (labels.map (nameOf elfFile)).length ≤ pd.length := by rw [List.length_map, hlabels.length]
    obtain ⟨css, hcss⟩ : ∃ css, (readCodeSectionsFrom platform elfFile allowed pd (labels.map (nameOf elfFile)) 0
        (headersOf elfFile)).run w = .ok css w :=
      run_readCodeSectionsFrom hwf (hlabels.symbolsOf_ne_nil hne) hlength hw List.drop_zero hcode
    refine ⟨css, ?_⟩
    rw [readCodeSections, EStateM.run_bind, run_readSectionHeadersAll hwf hw]
    dsimp only
    rw [EStateM.run_bind, hread]
    dsimp only
    rw [EStateM.run_bind, hnames]
    dsimp only
    split
    · rw [EStateM.run_bind, checked_eq_ok.mpr ⟨rfl, rfl⟩]
      exact hcss
    · exact hcss

end Pairs

/-- Whatever the order of the symbol table is, the names of the definitions are read in the order of the definitions.
    Each map is created under the name that labels its definition, and each section of code has the definition that is
    labelled for the first function of the first section with its name. -/
theorem definitions_paired {platform : Platform} {elfFile elfPath locationPrefix : List UInt8}
    {allowed : Option (List BpfProgType)} {mapLabels progLabels : List Elf64Sym} (hreadable : Readable elfFile)
    (hmaps : ∀ md ∈ mapDefsOf elfFile, Labels elfFile (Text.utf8 "maps") 120 md.length mapLabels)
    (hprogs : ∀ pd ∈ progDefsOf elfFile, Labels elfFile (Text.utf8 "progs") 92 pd.length progLabels) :
    (∀ md ∈ mapDefsOf elfFile,
      NamesRead elfFile (Text.utf8 "maps") platform (mapLabels.map (nameOf elfFile))) ∧
    (∀ pd ∈ progDefsOf elfFile,
      NamesRead elfFile (Text.utf8 "progs") platform (progLabels.map (nameOf elfFile))) ∧
    MapsPaired platform elfFile (mapLabels.map (nameOf elfFile)) elfPath locationPrefix ∧
    CodePaired platform elfFile (progLabels.map (nameOf elfFile)) allowed :=
  ⟨fun md hmd => (hmaps md hmd).namesRead hreadable (by decide), fun pd hpd => (hprogs pd hpd).namesRead hreadable (by decide),
    mapsPaired hreadable hmaps, codePaired hreadable hprogs⟩

/-! ### Two objects -/

instance (elfFile sectionName : List UInt8) (size count : Nat) (labels : List Elf64Sym) :
    Decidable (Labels elfFile sectionName size count labels) :=
  decidable_of_iff ((symbolsNamed elfFile sectionName none).Perm labels ∧ labels.length = count ∧
    ∀ i (hi : i < labels.length), labels[i].stValue = size * i)
    ⟨fun ⟨h, h', h''⟩ => ⟨h, h', h''⟩, fun ⟨h, h', h''⟩ => ⟨h, h', h''⟩⟩

/-- Two maps and two programs, with the last of each first in the symbol table. -/
def shuffledObject : List UInt8 :=
  let strings := [".strtab", "maps", "progs", "uprobe/p", "uprobe/q", ".symtab", "a", "b", "p", "q", "p_def", "q_def"]
  image strings [
    ⟨"maps", 1, hashMapDef.encode ++ { hashMapDef with valueSize := 16 }.encode⟩,
    ⟨"progs", 1, BpfProgDef.encode ⟨1, 1, 0, 0xFFFFFFFF, false⟩ ++ BpfProgDef.encode ⟨2, 2, 0, 0xFFFFFFFF, false⟩⟩,
    ⟨"uprobe/p", 1, [0x95, 0, 0, 0, 0, 0, 0, 0]⟩,
    ⟨"uprobe/q", 1, [0x95, 0, 0, 0, 0, 0, 0, 0]⟩,
    ⟨".symtab", shtSymtab,
      Elf64Sym.encode ⟨nameOffset strings "q_def", 1, 2, 92⟩ ++ Elf64Sym.encode ⟨nameOffset strings "b", 1, 1, 120⟩ ++
      Elf64Sym.encode ⟨nameOffset strings "q", sttFunc, 4, 0⟩ ++ Elf64Sym.encode ⟨nameOffset strings "a", 1, 1, 0⟩ ++
      Elf64Sym.encode ⟨nameOffset strings "p_def", 1, 2, 0⟩ ++ Elf64Sym.encode ⟨nameOffset strings "p", sttFunc, 3, 0⟩⟩]

/-- The size of the values and the name that a map is created with. -/
def Syscall.creates? : Syscall → Option (UInt32 × List UInt8)
  | .mapCreate attr mapName => some (attr.valueSize, mapName)
  | _ => none

theorem definitions_paired_of_shuffled : ∃ md pd fds w₁ css w₂, mapDefsOf shuffledObject = some md ∧
    progDefsOf shuffledObject = some pd ∧
    (createMaps quietPlatform shuffledObject [] (Text.utf8 "uprobestats/")).run {} = .ok fds w₁ ∧
    ((md.zip [Text.utf8 "a", Text.utf8 "b"]).mapM fun m => createMap quietPlatform (Text.utf8 "uprobestats/")
      (pathToObjName []) m.1 m.2).run {} = .ok fds w₁ ∧
    w₁.calls.filterMap Syscall.creates? = [(8, Text.utf8 "a"), (16, Text.utf8 "b")] ∧
    (readCodeSections quietPlatform shuffledObject none).run {} = .ok css w₂ ∧ css.length = 2 ∧
    (codedSections quietPlatform shuffledObject (headersOf shuffledObject)).Forall₂
      (CodeSection.Paired shuffledObject ([Text.utf8 "p_def", Text.utf8 "q_def"].zip pd)) css := by
  have hwf : WellFormed shuffledObject := by constructor <;> decide +kernel
  have hmaps : ∀ md ∈ mapDefsOf shuffledObject, Labels shuffledObject (Text.utf8 "maps") 120 md.length
      [(symbolsOf shuffledObject).getD 3 ⟨0, 0, 0, 0⟩, (symbolsOf shuffledObject).getD 1 ⟨0, 0, 0, 0⟩] := by decide +kernel
  have hprogs : ∀ pd ∈ progDefsOf shuffledObject, Labels shuffledObject (Text.utf8 "progs") 92 pd.length
      [(symbolsOf shuffledObject).getD 4 ⟨0, 0, 0, 0⟩, (symbolsOf shuffledObject).getD 0 ⟨0, 0, 0, 0⟩] := by decide +kernel
  have hmapNames : [(symbolsOf shuffledObject).getD 3 ⟨0, 0, 0, 0⟩, (symbolsOf shuffledObject).getD 1 ⟨0, 0, 0, 0⟩].map
      (nameOf shuffledObject) = [Text.utf8 "a", Text.utf8 "b"] := by decide +kernel
  have hnames : [(symbolsOf shuffledObject).getD 4 ⟨0, 0, 0, 0⟩, (symbolsOf shuffledObject).getD 0 ⟨0, 0, 0, 0⟩].map
      (nameOf shuffledObject) = [Text.utf8 "p_def", Text.utf8 "q_def"] := by decide +kernel
  have hok : isOk ((createMaps quietPlatform shuffledObject [] (Text.utf8 "uprobestats/")).run {}) = true := by decide +kernel
  have hcreates : (after ((createMaps quietPlatform shuffledObject [] (Text.utf8 "uprobestats/")).run {})).calls.filterMap
      Syscall.creates? = [(8, Text.utf8 "a"), (16, Text.utf8 "b")] := by decide +kernel
  have hcoded : (codedSections quietPlatform shuffledObject (headersOf shuffledObject)).length = 2 := by decide +kernel
  obtain ⟨md, hmd⟩ : ∃ md, mapDefsOf shuffledObject = some md := Option.isSome_iff_exists.mp (by decide +kernel)
  obtain ⟨fds, w₁, hrun⟩ := exists_of_isOk hok
  obtain ⟨-, -, hmapsPaired, hcodePaired⟩ := @definitions_paired quietPlatform shuffledObject [] (Text.utf8 "uprobestats/")
    none _ _ hwf.readable hmaps hprogs
  rw [hmapNames] at hmapsPaired
  rw [hnames] at hcodePaired
  have hcode : CodeAllowed quietPlatform none (sectionsOf shuffledObject) := ⟨fun _ _ _ => rfl, by decide +kernel⟩
  obtain ⟨css, hcss⟩ := hcodePaired.succeeds hwf (by decide) (by decide +kernel) hcode {} rfl
  obtain ⟨pd, hpd, hpaired⟩ := hcodePaired.paired {} {} css hcss
  rw [hrun] at hcreates
  refine ⟨md, pd, fds, w₁, css, {}, hmd, hpd, hrun, ?_, hcreates, hcss, hpaired.length_eq.symm.trans hcoded, hpaired⟩
  rw [← hmapsPaired.creates hwf (by decide) md hmd {} rfl, hrun]

/-- Two sections of one name, each with a function of its own. -/
def twinSections : List UInt8 :=
  let strings := [".strtab", "progs", "uprobe/p", ".symtab", "p", "q", "p_def", "q_def"]
  image strings [
    ⟨"progs", 1, BpfProgDef.encode ⟨1, 1, 0, 0xFFFFFFFF, false⟩ ++ BpfProgDef.encode ⟨2, 2, 0, 0xFFFFFFFF, false⟩⟩,
    ⟨"uprobe/p", 1, [0x95, 0, 0, 0, 0, 0, 0, 0]⟩,
    ⟨"uprobe/p", 1, [0x95, 0, 0, 0, 0, 0, 0, 0]⟩,
    ⟨".symtab", shtSymtab,
      Elf64Sym.encode ⟨nameOffset strings "p_def", 1, 1, 0⟩ ++ Elf64Sym.encode ⟨nameOffset strings "q_def", 1, 1, 92⟩ ++
      Elf64Sym.encode ⟨nameOffset strings "p", sttFunc, 2, 0⟩ ++ Elf64Sym.encode ⟨nameOffset strings "q", sttFunc, 3, 0⟩⟩]

/-- The second section gets the definition of the first one's function, though the only function in it is the other. -/
theorem not_paired_of_twinSections : Readable twinSections ∧ mapDefsOf twinSections = none ∧
    (∀ pd ∈ progDefsOf twinSections, Labels twinSections (Text.utf8 "progs") 92 pd.length
      (symbolsNamed twinSections (Text.utf8 "progs") none)) ∧
    ((symbolsOf twinSections).filter fun sym => sym.isNamed 3 (some sttFunc)).map (nameOf twinSections) =
      [Text.utf8 "q"] ∧
    (symbolsNamed twinSections (Text.utf8 "progs") none).map (nameOf twinSections) =
      [Text.utf8 "p_def", Text.utf8 "q_def"] ∧
    ∃ css, value? ((readCodeSections quietPlatform twinSections none).run {}) = some css ∧
      css.map (·.progDef) = [some ⟨1, 1, 0, 0xFFFFFFFF, false⟩, some ⟨1, 1, 0, 0xFFFFFFFF, false⟩] ∧
      progDefsOf twinSections = some [⟨1, 1, 0, 0xFFFFFFFF, false⟩, ⟨2, 2, 0, 0xFFFFFFFF, false⟩] := by
  refine ⟨by decide +kernel, by decide +kernel, by decide +kernel, by decide +kernel, by decide +kernel, ?_⟩
  have hok : ((value? ((readCodeSections quietPlatform twinSections none).run {})).any fun css =>
      css.map (·.progDef) = [some ⟨1, 1, 0, 0xFFFFFFFF, false⟩, some ⟨1, 1, 0, 0xFFFFFFFF, false⟩]) = true := by
    decide +kernel
  obtain ⟨css, hvalue, hdefs⟩ := (Option.any_eq_true _ _).mp hok
  exact ⟨css, hvalue, of_decide_eq_true hdefs, by decide +kernel⟩

end UprobeStats.BpfLoad
