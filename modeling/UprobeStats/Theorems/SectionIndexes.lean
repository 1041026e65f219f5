import UprobeStats.Theorems.CodeSections
import UprobeStats.Theorems.WellFormedObjects

/-! The indexes of `readCodeSections` in a well-formed object. Each program section makes it look at the header behind
    it, so they stay in range exactly when it does not come to a program section that is the last of the table. -/

namespace UprobeStats.BpfLoad
open Effect

section Condition
variable (platform : Platform) (elfFile : List UInt8) (allowed : Option (List BpfProgType))

/-- The loop goes on behind a section: its type is allowed, and a function lies under its name. -/
def Section.Passes (s : Section) : Prop :=
  isAllowedType platform (getSectionType platform s.name) allowed ∧ symbolsNamed elfFile s.name (some sttFunc) ≠ []

/-- The last section is a program, and the loop comes to it. -/
def ComesToEnd (ss : List Section) : Prop :=
  (∃ s ∈ ss.getLast?, s.isProgram platform ∧ s.data ≠ []) ∧
    ∀ s ∈ ss, s.isProgram platform → s.Passes platform elfFile allowed

/-- The object has whole program definitions, and the loop comes to its last section as a program. -/
def LooksBehind : Prop := (progDefsOf elfFile).isSome ∧ ComesToEnd platform elfFile allowed (sectionsOf elfFile)

end Condition

/-- A program reads outside of a buffer under a condition, and else leaves the state as it is. -/
def StraysWhen {α : Type} (P : Prop) (x : Prog α) (w : World) : Prop :=
  (P → w.strays < (after (x.run w)).strays) ∧ (¬P → after (x.run w) = w)

section Loop
variable {platform : Platform} {elfFile : List UInt8} {allowed : Option (List BpfProgType)} {s : Section}
  {ss : List Section}

theorem not_comesToEnd_nil : ¬ComesToEnd platform elfFile allowed [] := by
  rintro ⟨⟨s, hs, -⟩, -⟩
  cases hs

theorem comesToEnd_cons_iff (h : ss ≠ [] ∨ ¬(s.isProgram platform ∧ s.data ≠ []))
    (hpasses : s.isProgram platform → s.Passes platform elfFile allowed) :
    ComesToEnd platform elfFile allowed (s :: ss) ↔ ComesToEnd platform elfFile allowed ss := by
  cases ss with
  | nil =>
    refine iff_of_false (fun hend => ?_) not_comesToEnd_nil
    obtain ⟨⟨t, ht, hprogram⟩, -⟩ := hend
    obtain rfl := Option.some.inj ht
    exact h.elim (fun hne => hne rfl) fun hnot => hnot hprogram
  | cons t ss =>
    rw [ComesToEnd, ComesToEnd, List.getLast?_cons_cons, List.forall_mem_cons, and_iff_right hpasses]

theorem comesToEnd_singleton (hprogram : s.isProgram platform) (hdata : s.data ≠ [])
    (hpasses : s.Passes platform elfFile allowed) : ComesToEnd platform elfFile allowed [s] :=
  ⟨⟨s, rfl, hprogram, hdata⟩, fun t ht _ => by rwa [List.mem_singleton.mp ht]⟩

theorem not_comesToEnd_of_stop (hprogram : s.isProgram platform) (h : ¬s.Passes platform elfFile allowed) :
    ¬ComesToEnd platform elfFile allowed (s :: ss) :=
  fun hend => h (hend.2 s (List.mem_cons_self ..) hprogram)

theorem not_comesToEnd_of_noSymbols (h : symbolsOf elfFile = []) : ¬ComesToEnd platform elfFile allowed ss := by
  rintro ⟨⟨t, ht, hprogram, -⟩, hall⟩
  exact (hall t (List.mem_of_getLast? ht) hprogram).2 (symbolsNamed_eq_nil (Or.inl h))

/-! ### Steps -/

section Run
variable {pd : List BpfProgDef} {progDefNames : List (List UInt8)} {w : World}

/-- A name that is found has a definition. -/
theorem run_findProgDef (hlength : progDefNames.length ≤ pd.length) (name : List UInt8) :
    ∃ progDef, (findProgDef platform pd progDefNames name).run w = .ok progDef w := by
  unfold findProgDef
  cases hfind : progDefNames.findIdx? (· = name) with
  | none => exact ⟨none, rfl⟩
  | some j =>
    have hj : j < pd.length := lt_of_lt_of_le (List.findIdx?_eq_some_iff_findIdx_eq.mp hfind).1 hlength
    refine ⟨some pd[j], ?_⟩
    dsimp only
    rw [elementAt, List.getElem?_eq_getElem hj]
    rfl

theorem lt_strays_readRelData (i : Nat) (oldName : List UInt8) :
    w.strays < (after ((readRelData platform elfFile i [] oldName).run w)).strays := by
  have hstray : (elementAt [] 0 platform.stray.shdr).run w =
      .ok (platform.stray.shdr w.strays) { w with strays := w.strays + 1 } := rfl
  rw [readRelData, after_bind_of_ok hstray]
  have hrest : Within StraysLe
      (getSymName platform elfFile (platform.stray.shdr w.strays).shName >>= fun name =>
        if name = Text.utf8 ".rel" ++ oldName then readSectionByIdx platform elfFile (i + 1) else pure []) := by
    refine Within.bind (reads_getSymName _) fun name => ?_
    split
    · exact reads_readSectionByIdx _
    · exact Within.pure _
  exact hrest { w with strays := w.strays + 1 }

theorem lt_strays_bind {α β : Type} {x : Prog α} {f : α → Prog β} (hx : w.strays < (after (x.run w)).strays)
    (hf : ∀ a, Within StraysLe (f a)) :
    w.strays < (after ((x >>= f).run w)).strays := by
  cases hrun : x.run w with
  | ok a t =>
    rw [hrun] at hx
    rw [after_bind_of_ok hrun]
    exact lt_of_lt_of_le hx (hf a t)
  | error e t =>
    rw [hrun] at hx
    rw [after_bind_of_error hrun]
    exact hx

variable (hwf : WellFormed elfFile) (hw : w.failbit = false)
include hwf hw

theorem run_readRelData {i : Nat} {next : Elf64Shdr} {shs : List Elf64Shdr} {oldName : List UInt8}
    (hnext : (headersOf elfFile)[i + 1]? = some next) :
    ∃ relData, (readRelData platform elfFile i (next :: shs) oldName).run w = .ok relData w := by
  have hname := hwf.names next (List.mem_of_getElem? hnext)
  obtain ⟨name, -, htext⟩ := exists_text hwf hname
  refine ⟨if name = Text.utf8 ".rel" ++ oldName then dataOf elfFile next else [], ?_⟩
  have hsh : (elementAt (next :: shs) 0 platform.stray.shdr).run w = .ok next w := rfl
  rw [readRelData, EStateM.run_bind, hsh]
  dsimp only
  rw [EStateM.run_bind, run_getSymName platform hwf hw htext]
  dsimp only
  split
  · exact run_readSectionByIdx platform hwf hw hnext
  · rfl

/-- A program section makes the loop look behind it. -/
theorem straysWhen_program {i : Nat} {shs : List Elf64Shdr} {oldName : List UInt8}
    {f : List UInt8 → List CodeSection → List CodeSection} (hdrop : (headersOf elfFile).drop (i + 1) = shs)
    (hprogram : s.isProgram platform) (hdata : s.data ≠ []) (hpasses : s.Passes platform elfFile allowed)
    (ih : StraysWhen (ComesToEnd platform elfFile allowed (sectionsFrom elfFile (i + 1) shs))
      (readCodeSectionsFrom platform elfFile allowed pd progDefNames (i + 1) shs) w) :
    StraysWhen (ComesToEnd platform elfFile allowed (s :: sectionsFrom elfFile (i + 1) shs))
      (readRelData platform elfFile i shs oldName >>= fun relData =>
        readCodeSectionsFrom platform elfFile allowed pd progDefNames (i + 1) shs >>= fun cs => pure (f relData cs)) w := by
  cases shs with
  | nil =>
    refine ⟨fun _ => lt_strays_bind (lt_strays_readRelData i oldName) fun relData => ?_, fun h => ?_⟩
    · exact Within.bind (reads_readCodeSectionsFrom _ _ _ _ _) fun _ => Within.pure _
    · exact absurd (comesToEnd_singleton hprogram hdata hpasses) h
  | cons next shs =>
    have hnext : (headersOf elfFile)[i + 1]? = some next := (of_drop_eq_cons hdrop).1
    obtain ⟨relData, hrel⟩ : ∃ relData, (readRelData platform elfFile i (next :: shs) oldName).run w = .ok relData w :=
      run_readRelData hwf hw hnext
    have hne : sectionsFrom elfFile (i + 1) (next :: shs) ≠ [] := List.cons_ne_nil _ _
    rw [StraysWhen, after_bind_of_ok hrel, after_bind_pure, comesToEnd_cons_iff (Or.inl hne) fun _ => hpasses]
    exact ih

/-! ### The loop -/

omit hw in
theorem straysWhen_readCodeSectionsFrom (hlength : progDefNames.length ≤ pd.length) :
    ∀ {shs : List Elf64Shdr} {i : Nat} {w : World}, (headersOf elfFile).drop i = shs → w.failbit = false →
    StraysWhen (ComesToEnd platform elfFile allowed (sectionsFrom elfFile i shs))
      (readCodeSectionsFrom platform elfFile allowed pd progDefNames i shs) w
  | [], _, _, _, _ => ⟨fun h => absurd h not_comesToEnd_nil, fun _ => rfl⟩
  | sh :: shs, i, w, hdrop, hw => by
    obtain ⟨hi, hdrop'⟩ : (headersOf elfFile)[i]? = some sh ∧ (headersOf elfFile).drop (i + 1) = shs := of_drop_eq_cons hdrop
    have hlt := hwf.names sh (List.mem_of_getElem? hi)
    obtain ⟨oldName, -, hname⟩ := exists_text hwf hlt
    have ih := straysWhen_readCodeSectionsFrom hlength hdrop' hw
    rw [StraysWhen, readCodeSectionsFrom, after_bind_of_ok (run_getSymName platform hwf hw hname), sectionsFrom, hname,
      Option.getD_some]
    dsimp only
    by_cases htype : getSectionType platform oldName = bpfProgTypeUnspec
    · have hother : ¬Section.isProgram platform ⟨i, oldName, dataOf elfFile sh⟩ := not_not_intro htype
      rw [if_pos htype, comesToEnd_cons_iff (Or.inr fun h => hother h.1) fun h => absurd h hother]
      exact ih
    · have hprogram : Section.isProgram platform ⟨i, oldName, dataOf elfFile sh⟩ := htype
      rw [if_neg htype]
      by_cases hallowed : isAllowedType platform (getSectionType platform oldName) allowed = true
      · obtain ⟨names, ret, hnames, hcount, hret⟩ :=
          run_getSectionSymNames platform hwf hw oldName (some sttFunc)
        rw [if_neg (by simp [hallowed]), after_bind_of_ok (run_readSectionByIdx platform hwf hw hi), after_bind_of_ok hnames]
        by_cases hnone : symbolsNamed elfFile oldName (some sttFunc) = []
        · refine ⟨fun h => absurd h (not_comesToEnd_of_stop hprogram fun hpasses => hpasses.2 hnone), fun _ => ?_⟩
          obtain rfl : names = [] := by rwa [hnone, List.length_nil, List.length_eq_zero_iff] at hcount
          cases ret <;> rfl
        · have hpasses : Section.Passes platform elfFile allowed ⟨i, oldName, dataOf elfFile sh⟩ := ⟨hallowed, hnone⟩
          obtain rfl : ret = none := hret.resolve_right fun h => hnone (symbolsNamed_eq_nil h)
          rw [after_bind_of_ok (checked_eq_ok.mpr ⟨rfl, rfl⟩)]
          cases names with
          | nil => exact absurd (List.length_eq_zero_iff.mp hcount.symm) hnone
          | cons csSymName csSymNames =>
            obtain ⟨progDef, hprogDef⟩ : ∃ progDef,
                (findProgDef platform pd progDefNames (csSymName ++ Text.utf8 "_def")).run w = .ok progDef w :=
              run_findProgDef hlength _
            dsimp only
            rw [after_bind_of_ok hprogDef]
            by_cases hempty : dataOf elfFile sh = []
            · rw [if_pos hempty, comesToEnd_cons_iff (Or.inr fun h => h.2 hempty) fun _ => hpasses]
              exact ih
            · rw [if_neg hempty]
              exact straysWhen_program hwf hw hdrop' hprogram hempty hpasses ih
      · rw [if_pos (by simp [hallowed])]
        exact ⟨fun h => absurd h (not_comesToEnd_of_stop hprogram fun hpasses => hallowed hpasses.1), fun _ => rfl⟩

end Run

/-- There are no more symbols of the definitions than definitions. -/
theorem LabelsOne.length_le (h : LabelsOne elfFile) {pd : List BpfProgDef} (hpd : progDefsOf elfFile = some pd) :
    (symbolsNamed elfFile (Text.utf8 "progs") none).length ≤ pd.length := by
  obtain ⟨hnodup, hlabels⟩ := h pd hpd
  have hsubset : (symbolsNamed elfFile (Text.utf8 "progs") none).map (·.stValue) ⊆
      (List.range pd.length).map (92 * ·) := by
    intro value hvalue
    obtain ⟨sym, hsym, rfl⟩ := List.mem_map.mp hvalue
    obtain ⟨k, hk, heq⟩ := hlabels sym hsym
    exact List.mem_map.mpr ⟨k, List.mem_range.mpr hk, heq.symm⟩
  simpa using (hnodup.subperm hsubset).length_le

theorem firstNamed_progs {pd : List BpfProgDef} (hpd : progDefsOf elfFile = some pd) :
    firstNamed elfFile (Text.utf8 "progs") ≠ none := by
  obtain ⟨sh, hfind, -⟩ := Option.bind_eq_some_iff.mp hpd
  intro hnone
  have := List.findIdx?_eq_none_iff.mp hnone sh (List.mem_of_find?_eq_some hfind)
  rw [List.find?_some hfind] at this
  cases this

theorem straysWhen_readCodeSections {w : World} (hwf : WellFormed elfFile) (hlabels : LabelsOne elfFile)
    (hw : w.failbit = false) :
    StraysWhen (LooksBehind platform elfFile allowed) (readCodeSections platform elfFile allowed) w := by
  have hloop {pd : List BpfProgDef} {names : List (List UInt8)} (hlength : names.length ≤ pd.length) :
      StraysWhen (ComesToEnd platform elfFile allowed (sectionsOf elfFile))
        (readCodeSectionsFrom platform elfFile allowed pd names 0 (headersOf elfFile)) w :=
    straysWhen_readCodeSectionsFrom hwf hlength List.drop_zero hw
  rw [StraysWhen, readCodeSections, after_bind_of_ok (run_readSectionHeadersAll hwf hw), LooksBehind]
  rcases run_readProgDefs platform hwf hw with ⟨pd, hpd, hread⟩ | ⟨hnone, stop, hread⟩
  · obtain ⟨names, ret, hnames, hcount, hret⟩ := run_getSectionSymNames platform hwf hw
      (Text.utf8 "progs") none
    have hlength : names.length ≤ pd.length := hcount ▸ hlabels.length_le hpd
    rw [after_bind_of_ok hread, after_bind_of_ok hnames, hpd, Option.isSome_some, and_iff_right rfl]
    dsimp only
    split
    · cases ret with
      | none =>
        rw [after_bind_of_ok (checked_eq_ok.mpr ⟨rfl, rfl⟩)]
        exact hloop hlength
      | some code =>
        have hsymbols := (hret.resolve_left nofun).resolve_right (firstNamed_progs hpd)
        exact ⟨fun h => absurd h (not_comesToEnd_of_noSymbols hsymbols), fun _ => rfl⟩
    · exact hloop hlength
  · rw [after_bind_of_error hread, hnone]
    exact ⟨fun h => absurd h.1 (by simp), fun _ => rfl⟩

end Loop

/-- In a well-formed object no index is out of range exactly when the last section of the table is no program section
    that the loop comes to. -/
theorem indexes_in_range_iff {platform : Platform} {elfFile : List UInt8} {allowed : Option (List BpfProgType)} {w : World}
    (hwf : WellFormed elfFile) (hlabels : LabelsOne elfFile) (hw : w.failbit = false) :
    (after ((readCodeSections platform elfFile allowed).run w)).strays = w.strays ↔
      ¬LooksBehind platform elfFile allowed := by
  have hstrays : StraysWhen (LooksBehind platform elfFile allowed) (readCodeSections platform elfFile allowed) w :=
    straysWhen_readCodeSections hwf hlabels hw
  constructor
  · intro heq hlooks
    have := hstrays.1 hlooks
    omega
  · intro hnot
    rw [hstrays.2 hnot]

/-! ### Two objects -/

instance (elfFile : List UInt8) : Decidable (LabelsOne elfFile) :=
  inferInstanceAs (Decidable (∀ pd ∈ progDefsOf elfFile, _ ∧ ∀ sym ∈ _, ∃ k < _, _))

theorem indexes_in_range_of_oneProgram :
    (after ((readCodeSections quietPlatform oneProgram none).run {})).strays = 0 := by
  have hwf : WellFormed oneProgram := by constructor <;> decide +kernel
  have hlast : ¬∃ s ∈ (sectionsOf oneProgram).getLast?, s.isProgram quietPlatform := by decide +kernel
  refine (indexes_in_range_iff hwf (by decide +kernel) rfl).mpr fun hlooks => hlast ?_
  obtain ⟨-, ⟨s, hs, hprogram, -⟩, -⟩ := hlooks
  exact ⟨s, hs, hprogram⟩

/-- An object whose last section is its program. -/
def endingProgram : List UInt8 :=
  let strings := [".strtab", "license", "progs", ".symtab", "uprobe/p", "p", "p_def"]
  image strings [
    ⟨"license", 1, Text.utf8 "GPL" ++ [0]⟩,
    ⟨"progs", 1, BpfProgDef.encode ⟨0, 0, 0, 0xFFFFFFFF, false⟩⟩,
    ⟨".symtab", shtSymtab, Elf64Sym.encode ⟨nameOffset strings "p_def", 1, 2, 0⟩ ++
      Elf64Sym.encode ⟨nameOffset strings "p", sttFunc, 4, 0⟩⟩,
    ⟨"uprobe/p", 1, [0x95, 0, 0, 0, 0, 0, 0, 0]⟩]

/-- The look at the header behind the program is out of range. -/
theorem not_indexes_in_range_of_endingProgram : WellFormed endingProgram ∧ LabelsOne endingProgram ∧
    (after ((readCodeSections quietPlatform endingProgram none).run {})).strays = 1 := by
  have hwf : WellFormed endingProgram := by constructor <;> decide +kernel
  exact ⟨hwf, by decide +kernel, by decide +kernel⟩

end UprobeStats.BpfLoad
