import UprobeStats.Theorems.GoodStream

/-! Reading a well-formed object: every read succeeds inside of its buffer and leaves the state as it is. -/

namespace UprobeStats.BpfLoad
open Effect

section Object
variable (elfFile : List UInt8)

/-- Headers of 64 bytes, a string table that ends in a zero, and each offset in the file or in the strings. A file
    and its strings have the sizes that the offsets of a stream and an `int` reach. -/
structure WellFormed : Prop where
  size : elfFile.length < 2 ^ 63
  header : 64 ≤ elfFile.length
  shentsize : (ehdrOf elfFile).eShentsize = 64
  table : (ehdrOf elfFile).eShoff + (ehdrOf elfFile).eShnum * 64 ≤ elfFile.length
  index : (ehdrOf elfFile).eShstrndx < (headersOf elfFile).length
  data : ∀ sh ∈ headersOf elfFile, sh.shOffset + sh.shSize ≤ elfFile.length
  strings : (strtabOf elfFile).length ≤ 2 ^ 31
  terminated : (strtabOf elfFile).getLast? = some 0
  names : ∀ sh ∈ headersOf elfFile, sh.shName < (strtabOf elfFile).length
  symbolNames : ∀ sym ∈ symbolsOf elfFile, sym.stName < (strtabOf elfFile).length

/-- Each symbol of the definitions labels one of its own. -/
def LabelsOne : Prop :=
  ∀ pd ∈ progDefsOf elfFile, ((symbolsNamed elfFile (Text.utf8 "progs") none).map (·.stValue)).Nodup ∧
    ∀ sym ∈ symbolsNamed elfFile (Text.utf8 "progs") none, ∃ k < pd.length, sym.stValue = 92 * k

end Object

/-! ### Reads -/

section Reading
variable (platform : Platform) {elfFile : List UInt8} {w : World} (hwf : WellFormed elfFile) (hw : w.failbit = false)

theorem run_readAt {offset size : Nat} {readError : Ret} (hw : w.failbit = false) (hoffset : offset < 2 ^ 63)
    (hsize : offset + size ≤ elfFile.length) :
    (readAt elfFile offset size readError).run w = .ok ((elfFile.drop offset).take size) w := by
  have hgood : ¬(w.failbit || decide (2 ^ 63 ≤ offset)) = true := by
    rw [hw, Bool.false_or, decide_eq_true_eq]
    omega
  rw [readAt, run_get_bind, if_neg hgood, if_pos (by simp [hsize])]
  rfl

theorem untilNul_isSome : ∀ {bs : List UInt8}, bs.getLast? = some 0 → ∃ text, Text.untilNul bs = some text
  | [], h => by cases h
  | b :: bs, h => by
    rw [Text.untilNul]
    by_cases hb : b = 0
    · exact ⟨[], if_pos hb⟩
    · cases bs with
      | nil => exact absurd (Option.some.inj h) hb
      | cons c bs =>
        obtain ⟨text, htext⟩ := untilNul_isSome (List.getLast?_cons_cons.symm.trans h)
        exact ⟨b :: text, by rw [if_neg hb, htext]; rfl⟩

include hwf

theorem exists_text {offset : Nat} (h : offset < (strtabOf elfFile).length) :
    ∃ text, Text.untilNul ((strtabOf elfFile).drop offset) = some text ∧ nameAt elfFile offset = some text := by
  have hlast : ((strtabOf elfFile).drop offset).getLast? = some 0 := by
    rw [List.getLast?_drop, if_neg (Nat.not_le.mpr h), hwf.terminated]
  obtain ⟨text, htext⟩ := untilNul_isSome hlast
  exact ⟨text, htext, nameAt_eq_some.mpr ⟨lt_of_lt_of_le h hwf.strings, htext⟩⟩

theorem WellFormed.readable : Readable elfFile where
  index := hwf.index
  names sh hsh := by
    obtain ⟨text, -, hname⟩ := exists_text hwf (hwf.names sh hsh)
    rw [hname, Option.isSome_some]
  symbols sym hsym := by
    obtain ⟨text, -, hname⟩ := exists_text hwf (hwf.symbolNames sym hsym)
    rw [hname, Option.isSome_some]

include hw

theorem run_readElfHeader : (readElfHeader elfFile).run w = .ok (ehdrOf elfFile) w := by
  rw [readElfHeader, EStateM.run_bind, run_readAt hw (by decide) hwf.header]
  rfl

theorem run_readSectionHeadersAll : (readSectionHeadersAll elfFile).run w = .ok (headersOf elfFile) w := by
  have htable := hwf.table
  have hsize := hwf.size
  have hfits : ¬(ehdrOf elfFile).overruns elfFile.length := by
    rw [Elf64Ehdr.overruns, hwf.shentsize]
    omega
  rw [readSectionHeadersAll, EStateM.run_bind, run_readElfHeader hwf hw]
  dsimp only
  rw [if_neg hfits, EStateM.run_bind, run_readAt hw (by omega) (by rw [hwf.shentsize]; exact htable)]
  rfl

theorem run_readSection {sh : Elf64Shdr} (hsh : sh ∈ headersOf elfFile) :
    (readSection platform elfFile sh).run w = .ok (dataOf elfFile sh) w := by
  have hdata := hwf.data sh hsh
  have hsize := hwf.size
  rw [readSection, if_neg (by omega)]
  exact run_readAt hw (by omega) hdata

theorem run_readSectionByIdx {i : Nat} {sh : Elf64Shdr} (hsh : (headersOf elfFile)[i]? = some sh) :
    (readSectionByIdx platform elfFile i).run w = .ok (dataOf elfFile sh) w := by
  rw [readSectionByIdx, EStateM.run_bind, run_readSectionHeadersAll hwf hw]
  dsimp only
  rw [elementAt, hsh]
  exact run_readSection platform hwf hw (List.mem_of_getElem? hsh)

theorem run_readSectionHeaderStrtab :
    (readSectionHeaderStrtab platform elfFile).run w = .ok (strtabOf elfFile) w := by
  have hsh := List.getElem?_eq_getElem hwf.index
  rw [readSectionHeaderStrtab, EStateM.run_bind, run_readElfHeader hwf hw]
  dsimp only
  rw [run_readSectionByIdx platform hwf hw hsh, strtabOf, hsh]
  rfl

omit hw in
theorem WellFormed.legible : Legible platform elfFile :=
  ⟨fun _ hw => run_readSectionHeadersAll hwf hw, fun _ hw => run_readSectionHeaderStrtab platform hwf hw⟩

theorem run_getSymName {nameOff : Nat} {name : List UInt8} (hname : nameAt elfFile nameOff = some name) :
    (getSymName platform elfFile nameOff).run w = .ok name w :=
  (hwf.legible platform).gives_getSymName hname w hw

theorem run_readSymTab {sort : Bool} : (readSymTab platform elfFile sort).run w =
    if (headersOf elfFile).any fun sh => sh.shType = shtSymtab then
      .ok (if sort then platform.sort (symbolsOf elfFile) else symbolsOf elfFile) w
    else .error (.ret minusTwo) w := by
  rw [readSymTab, EStateM.run_bind, readSectionByType, EStateM.run_bind, run_readSectionHeadersAll hwf hw, symbolsOf]
  dsimp only
  cases hfind : (headersOf elfFile).find? fun sh => sh.shType = shtSymtab with
  | some sh =>
    have hany : ((headersOf elfFile).any fun sh => sh.shType = shtSymtab) = true :=
      List.any_eq_true.mpr ⟨sh, List.mem_of_find?_eq_some hfind, by simpa using List.find?_some hfind⟩
    rw [if_pos hany]
    dsimp only
    rw [run_readSection platform hwf hw (List.mem_of_find?_eq_some hfind)]
    rfl
  | none =>
    rw [if_neg (by simpa using hfind)]
    rfl

theorem run_readSectionByName {name : List UInt8} : (readSectionByName platform elfFile name).run w =
    ((headersOf elfFile).find? fun sh => nameAt elfFile sh.shName = some name).elim (.error (.ret minusTwo) w)
      fun sh => .ok (dataOf elfFile sh) w := by
  rw [readSectionByName, EStateM.run_bind, run_readSectionHeadersAll hwf hw]
  dsimp only
  rw [EStateM.run_bind, run_readSectionHeaderStrtab platform hwf hw]
  dsimp only
  rw [findSection_eq hwf.readable.names]
  cases hfind : (headersOf elfFile).find? fun sh => nameAt elfFile sh.shName = some name with
  | none => rfl
  | some sh => exact run_readSection platform hwf hw (List.mem_of_find?_eq_some hfind)

theorem run_readProgDefs : (∃ pd, progDefsOf elfFile = some pd ∧ (readProgDefs platform elfFile).run w = .ok pd w) ∨
    (progDefsOf elfFile = none ∧ ∃ stop, (readProgDefs platform elfFile).run w = .error stop w) := by
  rw [readProgDefs, EStateM.run_bind, run_readSectionByName platform hwf hw, progDefsOf]
  cases (headersOf elfFile).find? fun sh => nameAt elfFile sh.shName = some (Text.utf8 "progs") with
  | none => exact Or.inr ⟨rfl, _, rfl⟩
  | some sh =>
    rw [Option.elim_some, Option.bind_some]
    dsimp only
    by_cases hwhole : (dataOf elfFile sh).length % 92 = 0
    · rw [if_neg (not_not_intro hwhole), if_pos hwhole]
      exact Or.inl ⟨_, rfl, rfl⟩
    · rw [if_pos hwhole, if_neg hwhole]
      exact Or.inr ⟨rfl, _, rfl⟩

/-- As many names as there are symbols under the name of the section. -/
theorem run_getSectionSymNames (name : List UInt8) (symbolType : Option Nat) : ∃ names ret,
    (getSectionSymNames platform elfFile name symbolType).run w = .ok (names, ret) w ∧
      names.length = (symbolsNamed elfFile name symbolType).length ∧
      (ret = none ∨ symbolsOf elfFile = [] ∨ firstNamed elfFile name = none) := by
  have hreadable := hwf.readable
  have hlegible : Legible platform elfFile := hwf.legible platform
  by_cases htab : ((headersOf elfFile).any fun sh => sh.shType = shtSymtab) = true
  · cases hfirst : firstNamed elfFile name with
    | some i =>
      have hsymtab : Gives (readSymTab platform elfFile true) (platform.sort (symbolsOf elfFile)) := fun v hv => by
        rw [run_readSymTab platform hwf hv, if_pos htab, if_pos rfl]
      refine ⟨symbolNames elfFile platform name symbolType, none, ?_, ?_, Or.inl rfl⟩
      · exact hlegible.gives_getSectionSymNames hreadable.toNamed hsymtab hreadable.sectionSymbols hfirst w hw
      · rw [symbolNames, hfirst, List.length_map, (perm_sorted_symbolsNamed hfirst).length_eq]
    | none =>
      have hidx : (findSectionIdx platform elfFile name 0 (headersOf elfFile)).run w = .error (.ret minusOne) w := by
        have hnotFound : (headersOf elfFile).findIdx? (fun sh => nameAt elfFile sh.shName = some name) = none := hfirst
        rw [hlegible.run_findSectionIdx hw hreadable.names, hnotFound, Option.elim_none]
      refine ⟨[], some minusOne, ?_, by rw [symbolsNamed, hfirst]; rfl, Or.inr (Or.inr rfl)⟩
      rw [getSectionSymNames, EStateM.run_bind, tried_eq_ok.mpr (Or.inr ⟨minusOne, rfl, ?_⟩)]
      · rfl
      · rw [EStateM.run_bind, run_readSymTab platform hwf hw, if_pos htab]
        dsimp only
        rw [EStateM.run_bind, run_readSectionHeadersAll hwf hw]
        dsimp only
        rw [EStateM.run_bind, hidx]
  · have hnone : symbolsOf elfFile = [] := by
      have hfind : ((headersOf elfFile).find? fun sh => sh.shType = shtSymtab) = none := by
        simpa using htab
      rw [symbolsOf, hfind]
    refine ⟨[], some minusTwo, ?_, ?_, Or.inr (Or.inl hnone)⟩
    · rw [getSectionSymNames, EStateM.run_bind, tried_eq_ok.mpr (Or.inr ⟨minusTwo, rfl, ?_⟩)]
      · rfl
      · rw [EStateM.run_bind, run_readSymTab platform hwf hw, if_neg htab]
    · rw [symbolsNamed_eq_nil (Or.inl hnone)]
      rfl

end Reading
end UprobeStats.BpfLoad
