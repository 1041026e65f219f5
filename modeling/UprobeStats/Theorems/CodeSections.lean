import UprobeStats.Theorems.ElfObjects

/-! The program sections that `readCodeSections` lists. A section without a function ends its loop with success, so
    the list is complete exactly when no program section lies at or behind such a one. -/

namespace UprobeStats.BpfLoad
open Effect

section Sections
variable (platform : Platform) (elfFile : List UInt8)

/-- The name starts with the prefix of a type of programs. -/
def Section.isProgram (s : Section) : Prop := getSectionType platform s.name ≠ bpfProgTypeUnspec

instance (s : Section) : Decidable (s.isProgram platform) := inferInstanceAs (Decidable (_ ≠ _))

def Section.hasFunction (s : Section) : Prop := ∃ sym ∈ symbolsOf elfFile, sym.isNamed s.index (some sttFunc)

instance (s : Section) : Decidable (s.hasFunction elfFile) := inferInstanceAs (Decidable (∃ sym ∈ _, _))

/-- The program sections that are not empty, each with the section behind it. -/
def programSections : List Section → List (Section × Option Section)
  | [] => []
  | s :: ss =>
    if s.isProgram platform ∧ s.data ≠ [] then (s, ss.head?) :: programSections ss else programSections ss

/-- Those of them that the loop comes to. -/
def reachedSections : List Section → List (Section × Option Section)
  | [] => []
  | s :: ss =>
    if ¬s.isProgram platform then reachedSections ss
    else if ¬s.hasFunction elfFile then []
    else if s.data = [] then reachedSections ss
    else (s, ss.head?) :: reachedSections ss

/-- The entry of a program section. Its relocations are the section behind it, when that has the name for it. -/
structure CodeSection.Describes (cs : CodeSection) (s : Section × Option Section) : Prop where
  type : cs.type = getSectionType platform s.1.name
  name : cs.name = s.1.name.map fun b => if b = 47 then 95 else b
  data : cs.data = s.1.data
  relData : ∀ next ∈ s.2, cs.relData = if next.name = Text.utf8 ".rel" ++ s.1.name then next.data else []

/-- A program section with a program at or behind it has a function. -/
def FunctionsGiven (ss : List Section) : Prop :=
  ∀ s after, s :: after <:+ ss → s.isProgram platform →
    (∃ t ∈ s :: after, t.isProgram platform ∧ t.data ≠ []) → s.hasFunction elfFile

end Sections

section Loop
variable {platform : Platform} {elfFile : List UInt8} {s : Section} {ss : List Section}

theorem programSections_eq_nil : ∀ {ss : List Section},
    programSections platform ss = [] ↔ ¬∃ t ∈ ss, t.isProgram platform ∧ t.data ≠ []
  | [] => by simp [programSections]
  | s :: ss => by
    rw [programSections]
    split
    · rename_i h
      exact iff_of_false (List.cons_ne_nil _ _) (not_not_intro ⟨s, List.mem_cons_self .., h⟩)
    · rename_i h
      rw [programSections_eq_nil, List.exists_mem_cons_iff, not_or]
      exact (and_iff_right h).symm

theorem functionsGiven_cons : FunctionsGiven platform elfFile (s :: ss) ↔
    (s.isProgram platform → programSections platform (s :: ss) ≠ [] → s.hasFunction elfFile) ∧
      FunctionsGiven platform elfFile ss := by
  simp only [ne_eq, programSections_eq_nil, not_not]
  constructor
  · intro h
    exact ⟨h s ss (List.suffix_refl _), fun t after hsuffix => h t after (hsuffix.trans (List.suffix_cons ..))⟩
  · rintro ⟨hs, hss⟩ t after hsuffix
    rcases List.suffix_cons_iff.mp hsuffix with heq | hsuffix
    · obtain ⟨rfl, rfl⟩ := List.cons.inj heq
      exact hs
    · exact hss t after hsuffix

theorem functionsGiven_of_nil (h : programSections platform ss = []) : FunctionsGiven platform elfFile ss := by
  rintro s after hsuffix - ⟨t, ht, hprogram⟩
  exact absurd ⟨t, hsuffix.subset ht, hprogram⟩ (programSections_eq_nil.mp h)

/-- The loop comes to all of them exactly when it comes to as many. -/
theorem functionsGiven_iff_length : ∀ ss : List Section, FunctionsGiven platform elfFile ss ↔
    (reachedSections platform elfFile ss).length = (programSections platform ss).length
  | [] => iff_of_true (fun s after h => by simp at h) rfl
  | s :: ss => by
    have ih := functionsGiven_iff_length ss
    rw [functionsGiven_cons, reachedSections]
    by_cases hprogram : s.isProgram platform
    · by_cases hfunction : s.hasFunction elfFile
      · have hall : (s.isProgram platform → programSections platform (s :: ss) ≠ [] → s.hasFunction elfFile) :=
          fun _ _ => hfunction
        rw [and_iff_right hall, programSections]
        by_cases hdata : s.data = []
        · simpa [hprogram, hfunction, hdata] using ih
        · simpa [hprogram, hfunction, hdata] using ih
      · rw [if_neg (not_not_intro hprogram), if_pos hfunction, List.length_nil, eq_comm, List.length_eq_zero_iff]
        constructor
        · rintro ⟨hs, -⟩
          exact not_not.mp fun hne => hfunction (hs hprogram hne)
        · intro hnil
          refine ⟨fun _ hne => absurd hnil hne, functionsGiven_of_nil ?_⟩
          rw [programSections_eq_nil] at hnil ⊢
          exact fun ⟨t, ht, h⟩ => hnil ⟨t, List.mem_cons_of_mem _ ht, h⟩
    · rw [programSections, if_pos hprogram, if_neg fun h => hprogram h.1]
      exact (and_iff_right fun h => absurd h hprogram).trans ih

theorem isPrefix_reachedSections : ∀ ss : List Section,
    reachedSections platform elfFile ss <+: programSections platform ss
  | [] => List.prefix_refl _
  | s :: ss => by
    have ih := isPrefix_reachedSections ss
    rw [reachedSections, programSections]
    by_cases hprogram : s.isProgram platform
    · by_cases hfunction : s.hasFunction elfFile
      · by_cases hdata : s.data = []
        · simpa [hprogram, hfunction, hdata] using ih
        · simpa [hprogram, hfunction, hdata] using ih
      · simp [hprogram, hfunction]
    · simpa [hprogram] using ih

section Step
variable (hprogram : s.isProgram platform) (hfunction : s.hasFunction elfFile)

theorem reachedSections_other (h : getSectionType platform s.name = bpfProgTypeUnspec) :
    reachedSections platform elfFile (s :: ss) = reachedSections platform elfFile ss :=
  if_pos (not_not_intro h)

include hprogram

theorem reachedSections_stop (h : ¬s.hasFunction elfFile) : reachedSections platform elfFile (s :: ss) = [] :=
  (if_neg (not_not_intro hprogram)).trans (if_pos h)

include hfunction

theorem reachedSections_empty (h : s.data = []) :
    reachedSections platform elfFile (s :: ss) = reachedSections platform elfFile ss :=
  (if_neg (not_not_intro hprogram)).trans ((if_neg (not_not_intro hfunction)).trans (if_pos h))

theorem reachedSections_program (h : s.data ≠ []) :
    reachedSections platform elfFile (s :: ss) = (s, ss.head?) :: reachedSections platform elfFile ss :=
  (if_neg (not_not_intro hprogram)).trans ((if_neg (not_not_intro hfunction)).trans (if_neg h))

end Step

/-! ### The loop -/

theorem map_name_sectionsFrom : ∀ (i : Nat) (shs : List Elf64Shdr),
    (sectionsFrom elfFile i shs).map Section.name = shs.map fun sh => (nameAt elfFile sh.shName).getD []
  | _, [] => rfl
  | i, sh :: shs => by rw [sectionsFrom, List.map_cons, map_name_sectionsFrom (i + 1) shs, List.map_cons]

/-- Of two sections with one name both are the same. -/
theorem index_eq_of_name (hdistinct : ((sectionsOf elfFile).map Section.name).Nodup) {i j : Nat} {sh sh' : Elf64Shdr}
    (hi : (headersOf elfFile)[i]? = some sh) (hj : (headersOf elfFile)[j]? = some sh')
    (hname : nameAt elfFile sh.shName = nameAt elfFile sh'.shName) : i = j := by
  rw [sectionsOf, map_name_sectionsFrom] at hdistinct
  have hlength : i < ((headersOf elfFile).map fun sh => (nameAt elfFile sh.shName).getD []).length := by
    rw [List.length_map]
    exact (List.getElem?_eq_some_iff.mp hi).1
  refine (List.getElem?_inj hlength hdistinct).mp ?_
  rw [List.getElem?_map, List.getElem?_map, hi, hj, Option.map_some, Option.map_some, hname]

section Run
variable {allowed : Option (List BpfProgType)} {pd : List BpfProgDef} {progDefNames : List (List UInt8)}

/-- What an iteration of the loop can do when it does not fail. -/
theorem readCodeSectionsFrom_cases {i : Nat} {sh : Elf64Shdr} {shs : List Elf64Shdr} {cs : List CodeSection} {w w' : World}
    (h : (readCodeSectionsFrom platform elfFile allowed pd progDefNames i (sh :: shs)).run w = .ok cs w') :
    ∃ oldName w₁, (getSymName platform elfFile sh.shName).run w = .ok oldName w₁ ∧
      ((getSectionType platform oldName = bpfProgTypeUnspec ∧
          (readCodeSectionsFrom platform elfFile allowed pd progDefNames (i + 1) shs).run w₁ = .ok cs w') ∨
        (getSectionType platform oldName ≠ bpfProgTypeUnspec ∧ ∃ data w₂ names w₃,
          (readSectionByIdx platform elfFile i).run w₁ = .ok data w₂ ∧
          (getSectionSymNames platform elfFile oldName (some sttFunc)).run w₂ = .ok (names, none) w₃ ∧
          ((names = [] ∧ cs = []) ∨ (∃ csSymName rest progDef w₄, names = csSymName :: rest ∧
            (findProgDef platform pd progDefNames (csSymName ++ Text.utf8 "_def")).run w₃ = .ok progDef w₄ ∧
            ((data = [] ∧ (readCodeSectionsFrom platform elfFile allowed pd progDefNames (i + 1) shs).run w₄ = .ok cs w') ∨
              (data ≠ [] ∧ ∃ relData w₅ cs', (readRelData platform elfFile i shs oldName).run w₄ = .ok relData w₅ ∧
                (readCodeSectionsFrom platform elfFile allowed pd progDefNames (i + 1) shs).run w₅ = .ok cs' w' ∧
                cs = { type := getSectionType platform oldName, name := oldName.map fun b => if b = 47 then 95 else b,
                       data, relData, progDef } :: cs')))))) := by
  obtain ⟨oldName, w₁, hget, h⟩ := bind_eq_ok.mp h
  refine ⟨oldName, w₁, hget, ?_⟩
  dsimp only at h
  by_cases htype : getSectionType platform oldName = bpfProgTypeUnspec
  · rw [if_pos htype] at h
    exact Or.inl ⟨htype, h⟩
  · rw [if_neg htype] at h
    refine Or.inr ⟨htype, ?_⟩
    split at h
    · cases h
    · obtain ⟨data, w₂, hdata, h⟩ := bind_eq_ok.mp h
      obtain ⟨result, w₃, hresult, h⟩ := bind_eq_ok.mp h
      obtain ⟨names, w₄, hchecked, hnames⟩ := bind_eq_ok.mp h
      obtain ⟨rfl, rfl⟩ := checked_eq_ok.mp hchecked
      refine ⟨data, w₂, names, w₄, hdata, hresult, ?_⟩
      split at hnames
      · exact Or.inl ⟨rfl, (pure_eq_ok.mp hnames).1.symm⟩
      · obtain ⟨progDef, w₅, hprogDef, hrest⟩ := bind_eq_ok.mp hnames
        refine Or.inr ⟨_, _, progDef, w₅, rfl, hprogDef, ?_⟩
        by_cases hempty : data = []
        · rw [if_pos hempty] at hrest
          exact Or.inl ⟨hempty, hrest⟩
        · rw [if_neg hempty] at hrest
          obtain ⟨relData, w₆, hrel, hrest⟩ := bind_eq_ok.mp hrest
          obtain ⟨cs', w₇, hcs', hrest⟩ := bind_eq_ok.mp hrest
          obtain ⟨hcs, rfl⟩ := pure_eq_ok.mp hrest
          exact Or.inr ⟨hempty, relData, w₆, cs', hrel, hcs', hcs.symm⟩

variable (hnamed : Named elfFile)
include hnamed

theorem readRelData_eq_ok {i : Nat} {next : Elf64Shdr} {shs : List Elf64Shdr} {oldName name relData : List UInt8}
    {w w' : World} (hnext : (headersOf elfFile)[i + 1]? = some next) (hname : nameAt elfFile next.shName = some name)
    (h : (readRelData platform elfFile i (next :: shs) oldName).run w = .ok relData w') :
    relData = if name = Text.utf8 ".rel" ++ oldName then dataOf elfFile next else [] := by
  obtain ⟨sh, w₁, hsh, hrest⟩ := bind_eq_ok.mp h
  obtain rfl := elementAt_eq_ok (x := next) rfl hsh
  obtain ⟨name', w₂, hget, h⟩ := bind_eq_ok.mp hrest
  obtain rfl := getSymName_eq_ok hnamed hname hget
  split at h
  · rename_i heq
    rw [if_pos heq]
    exact readSectionByIdx_eq_ok hnext h
  · rename_i hne
    rw [if_neg hne]
    exact (pure_eq_ok.mp h).1.symm

/-- The names that the loop reads of a section are those of its own functions. -/
theorem hasFunction_iff_names (hdistinct : ((sectionsOf elfFile).map Section.name).Nodup) {i : Nat} {sh : Elf64Shdr}
    {name : List UInt8} {names : List (List UInt8)} {w w' : World} (data : List UInt8) (hi : (headersOf elfFile)[i]? = some sh)
    (hname : nameAt elfFile sh.shName = some name)
    (h : (getSectionSymNames platform elfFile name (some sttFunc)).run w = .ok (names, none) w') :
    Section.hasFunction elfFile ⟨i, name, data⟩ ↔ names ≠ [] := by
  obtain ⟨idx, w₁, hfirst, hnames⟩ := getSectionSymNames_eq_ok hnamed h
  obtain ⟨sh', hidx, hname'⟩ := firstNamed_eq_some hfirst
  obtain rfl := index_eq_of_name hdistinct hi hidx (hname.trans hname'.symm)
  rw [← List.length_pos_iff, length_of_readNames hnames, List.length_pos_iff, Ne, List.filter_eq_nil_iff]
  simp only [Section.hasFunction, (platform.perm_sort _).mem_iff, not_forall, not_not, exists_prop]

theorem readCodeSectionsFrom_eq_ok (hdistinct : ((sectionsOf elfFile).map Section.name).Nodup) :
    ∀ {shs : List Elf64Shdr} {i : Nat} {cs : List CodeSection} {w w' : World}, (headersOf elfFile).drop i = shs →
    (readCodeSectionsFrom platform elfFile allowed pd progDefNames i shs).run w = .ok cs w' →
    List.Forall₂ (fun s cs => CodeSection.Describes platform cs s)
      (reachedSections platform elfFile (sectionsFrom elfFile i shs)) cs
  | [], i, cs, w, w', _, h => by
    obtain rfl := (pure_eq_ok.mp h).1
    exact List.Forall₂.nil
  | sh :: shs, i, cs, w, w', hdrop, h => by
    obtain ⟨hi, hdrop'⟩ : (headersOf elfFile)[i]? = some sh ∧ (headersOf elfFile).drop (i + 1) = shs := of_drop_eq_cons hdrop
    obtain ⟨name, hname⟩ := Option.isSome_iff_exists.mp (hnamed.names sh (List.mem_of_getElem? hi))
    obtain ⟨oldName, w₁, hget, hcases⟩ := readCodeSectionsFrom_cases h
    obtain rfl := getSymName_eq_ok hnamed hname hget
    rw [sectionsFrom, hname, Option.getD_some]
    rcases hcases with ⟨htype, hrest⟩ | ⟨hprogram, data, w₂, names, w₃, hdata, hnames, hcases⟩
    · rw [reachedSections_other htype]
      exact readCodeSectionsFrom_eq_ok hdistinct hdrop' hrest
    · obtain rfl := readSectionByIdx_eq_ok hi hdata
      have hprogram' : Section.isProgram platform ⟨i, oldName, dataOf elfFile sh⟩ := hprogram
      have hfunction := hasFunction_iff_names hnamed hdistinct (dataOf elfFile sh) hi hname hnames
      rcases hcases with ⟨rfl, rfl⟩ |
        ⟨csSymName, rest, progDef, w₄, rfl, -, ⟨hempty, hrest⟩ | ⟨hdata, relData, w₅, cs', hrel, hrest, rfl⟩⟩
      · rw [reachedSections_stop hprogram' fun hsome => hfunction.mp hsome rfl]
        exact List.Forall₂.nil
      · rw [reachedSections_empty hprogram' (hfunction.mpr (List.cons_ne_nil _ _)) hempty]
        exact readCodeSectionsFrom_eq_ok hdistinct hdrop' hrest
      · rw [reachedSections_program hprogram' (hfunction.mpr (List.cons_ne_nil _ _)) hdata]
        refine List.Forall₂.cons ⟨rfl, rfl, rfl, fun next hnext => ?_⟩
          (readCodeSectionsFrom_eq_ok hdistinct hdrop' hrest)
        cases shs with
        | nil => cases hnext
        | cons sh' shs =>
          have hi' : (headersOf elfFile)[i + 1]? = some sh' := (of_drop_eq_cons hdrop').1
          obtain ⟨name', hname'⟩ := Option.isSome_iff_exists.mp (hnamed.names sh' (List.mem_of_getElem? hi'))
          rw [sectionsFrom, hname', Option.getD_some] at hnext
          obtain rfl := Option.some.inj hnext
          exact readRelData_eq_ok hnamed hi' hname' hrel

omit hnamed in
theorem readCodeSections_eq_ok {cs : List CodeSection} {w w' : World}
    (h : (readCodeSections platform elfFile allowed).run w = .ok cs w') : ∃ pd progDefNames ret w₁ w₂ w₃,
      (readProgDefs platform elfFile).run w₁ = .ok pd w₂ ∧
      (getSectionSymNames platform elfFile (Text.utf8 "progs") none).run w₂ = .ok (progDefNames, ret) w₃ ∧
      (pd ≠ [] → ret = none) ∧
      (readCodeSectionsFrom platform elfFile allowed pd progDefNames 0 (headersOf elfFile)).run w₃ = .ok cs w' := by
  obtain ⟨shTable, w₁, htable, h⟩ := bind_eq_ok.mp h
  obtain ⟨pd, w₂, hpd, h⟩ := bind_eq_ok.mp h
  obtain ⟨⟨names, ret⟩, w₃, hnames, h⟩ := bind_eq_ok.mp h
  obtain rfl := readSectionHeadersAll_eq_ok htable
  split at h
  · obtain ⟨progDefNames, w₄, hchecked, hloop⟩ := bind_eq_ok.mp h
    obtain ⟨hresult, rfl⟩ := checked_eq_ok.mp hchecked
    obtain ⟨rfl, rfl⟩ := Prod.mk.inj hresult
    exact ⟨pd, _, none, w₁, w₂, w₄, hpd, hnames, fun _ => rfl, hloop⟩
  · rename_i hnil
    exact ⟨pd, names, ret, w₁, w₂, w₃, hpd, hnames, fun hne => absurd hne hnil, h⟩

end Run
end Loop

/-- A successful run lists every program section that is not empty exactly when none lies at or behind a program
    section without a function. -/
theorem codeSections_complete_iff {platform : Platform} {elfFile : List UInt8} {allowed : Option (List BpfProgType)}
    {w w' : World} {cs : List CodeSection} (hnamed : Named elfFile)
    (hdistinct : ((sectionsOf elfFile).map Section.name).Nodup)
    (hrun : (readCodeSections platform elfFile allowed).run w = .ok cs w') :
    List.Forall₂ (fun s cs => CodeSection.Describes platform cs s) (programSections platform (sectionsOf elfFile)) cs ↔
      FunctionsGiven platform elfFile (sectionsOf elfFile) := by
  obtain ⟨pd, progDefNames, ret, w₁, w₂, w₃, -, -, -, hloop⟩ := readCodeSections_eq_ok hrun
  have hreached : List.Forall₂ (fun s cs => CodeSection.Describes platform cs s)
      (reachedSections platform elfFile (sectionsOf elfFile)) cs :=
    readCodeSectionsFrom_eq_ok hnamed hdistinct List.drop_zero hloop
  rw [functionsGiven_iff_length]
  constructor
  · intro hall
    rw [hreached.length_eq, hall.length_eq]
  · intro hlength
    have hprefix : reachedSections platform elfFile (sectionsOf elfFile) <+: _ := isPrefix_reachedSections _
    rwa [← hprefix.eq_of_length hlength]

/-! ### Two objects -/

/-- An object with two programs, of which the first has no function. -/
def unlabelledProgram : List UInt8 :=
  let strings := [".strtab", "license", "progs", "uprobe/p", "uprobe/q", ".symtab", "q", "q_def"]
  image strings [
    ⟨"license", 1, Text.utf8 "GPL" ++ [0]⟩,
    ⟨"progs", 1, BpfProgDef.encode ⟨0, 0, 0, 0xFFFFFFFF, false⟩⟩,
    ⟨"uprobe/p", 1, [0x95, 0, 0, 0, 0, 0, 0, 0]⟩,
    ⟨"uprobe/q", 1, [0x95, 0, 0, 0, 0, 0, 0, 0]⟩,
    ⟨".symtab", shtSymtab, Elf64Sym.encode ⟨nameOffset strings "q_def", 1, 2, 0⟩ ++
      Elf64Sym.encode ⟨nameOffset strings "q", sttFunc, 4, 0⟩⟩]

/-- The list comes out empty, with success. -/
theorem not_complete_of_unlabelledProgram :
    Named unlabelledProgram ∧ ((sectionsOf unlabelledProgram).map Section.name).Nodup ∧
      value? ((readCodeSections quietPlatform unlabelledProgram none).run {}) = some [] ∧
      ¬List.Forall₂ (fun s cs => CodeSection.Describes quietPlatform cs s)
        (programSections quietPlatform (sectionsOf unlabelledProgram)) [] := by
  have hprograms : programSections quietPlatform (sectionsOf unlabelledProgram) ≠ [] := by decide +kernel
  exact ⟨by decide +kernel, by decide +kernel, by decide +kernel, fun h => hprograms (List.forall₂_nil_right_iff.mp h)⟩

theorem complete_of_oneProgram : ∃ cs w', (readCodeSections quietPlatform oneProgram none).run {} = .ok cs w' ∧
    List.Forall₂ (fun s cs => CodeSection.Describes quietPlatform cs s)
      (programSections quietPlatform (sectionsOf oneProgram)) cs ∧ cs ≠ [] := by
  have hok : ((value? ((readCodeSections quietPlatform oneProgram none).run {})).any fun cs => cs ≠ []) = true := by
    decide +kernel
  obtain ⟨cs, w', hrun, hne⟩ := exists_of_any_value? hok
  have hgiven : FunctionsGiven quietPlatform oneProgram (sectionsOf oneProgram) :=
    (functionsGiven_iff_length _).mpr (by decide +kernel)
  exact ⟨cs, w', hrun, (codeSections_complete_iff (by decide +kernel) (by decide +kernel) hrun).mpr hgiven,
    by simpa using hne⟩

end UprobeStats.BpfLoad
