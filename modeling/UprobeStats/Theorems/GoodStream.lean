import UprobeStats.Theorems.ElfObjects

/-! Reading from a good stream. A read inside of the file and of its buffers that has succeeded once succeeds from every
    state whose stream is good, with the same result, and leaves the state as it is. -/

namespace UprobeStats.BpfLoad
open Effect

/-- From a good stream the result is this one, and nothing changes. -/
def Gives {α : Type} (x : Prog α) (a : α) : Prop := ∀ w, w.failbit = false → x.run w = .ok a w

section Gives
variable {α β : Type} {x : Prog α} {f : α → Prog β} {a : α} {b : β}

theorem gives_pure : Gives (pure a) a := fun _ _ => rfl

theorem Gives.bind (hx : Gives x a) (hf : Gives (f a) b) : Gives (x >>= f) b := by
  intro w hw
  rw [EStateM.run_bind, hx w hw]
  exact hf w hw

theorem Gives.tried (hx : Gives x a) : Gives (tried x) (.ok a) := fun w hw => tried_eq_ok.mpr (Or.inl ⟨a, rfl, hx w hw⟩)

theorem gives_elementAt {xs : List α} {i : Nat} {beyond : Nat → α} (h : xs[i]? = some a) : Gives (elementAt xs i beyond) a := by
  rw [elementAt, h]
  exact gives_pure

end Gives

/-- The same, but for strays, and those only where it is not inside of its buffers. -/
def GivesWhere {α : Type} (inside : Prop) (x : Prog α) (a : α) : Prop :=
  ∀ w, w.failbit = false → ∃ strays, x.run w = .ok a { w with strays } ∧ (inside → strays = w.strays)

section GivesWhere
variable {α β : Type} {inside : Prop} {x : Prog α} {a : α} {b : β}

theorem Gives.givesWhere (h : Gives x a) : GivesWhere inside x a := fun w hw => ⟨w.strays, h w hw, fun _ => rfl⟩

theorem GivesWhere.bind {f : α → Prog β} (hx : GivesWhere inside x a) (hf : GivesWhere inside (f a) b) :
    GivesWhere inside (x >>= f) b := by
  intro w hw
  obtain ⟨strays, hrun, hsame⟩ := hx w hw
  obtain ⟨strays', hrun', hsame'⟩ := hf { w with strays } hw
  refine ⟨strays', bind_eq_ok.mpr ⟨a, _, hrun, hrun'⟩, fun h => (hsame' h).trans (hsame h)⟩

theorem GivesWhere.gives (h : GivesWhere inside x a) (hinside : inside) : Gives x a := by
  intro w hw
  obtain ⟨strays, hrun, hsame⟩ := h w hw
  rw [hrun, hsame hinside]

theorem givesWhere_strayWrite {outside : Bool} (h : inside → outside = false) :
    GivesWhere inside (strayWrite outside) ⟨⟩ :=
  fun w _ => ⟨_, rfl, fun hinside => by rw [h hinside]; rfl⟩

end GivesWhere

section Reading
variable {platform : Platform} {elfFile : List UInt8} {w w' : World}

/-! ### Reads that have succeeded -/

theorem gives_readAt {offset size : Nat} {readError : Ret} {bs : List UInt8}
    (h : (readAt elfFile offset size readError).run w = .ok bs w') :
    w.failbit = false ∧ Gives (readAt elfFile offset size readError) bs := by
  rw [readAt, run_get_bind] at h
  split at h
  · cases h
  · rename_i hgood
    rw [Bool.or_eq_true, not_or, Bool.not_eq_true, Bool.not_eq_true] at hgood
    refine ⟨hgood.1, fun v hv => ?_⟩
    rw [readAt, run_get_bind, hv, hgood.2]
    split at h
    · rename_i hsize
      obtain ⟨rfl, -⟩ := pure_eq_ok.mp h
      rw [if_neg (by decide), if_pos hsize]
      rfl
    · cases h

theorem gives_readElfHeader {eh : Elf64Ehdr} (h : (readElfHeader elfFile).run w = .ok eh w') :
    w.failbit = false ∧ Gives (readElfHeader elfFile) (ehdrOf elfFile) := by
  obtain rfl := readElfHeader_eq_ok h
  obtain ⟨bs, w₁, hbs, hpure⟩ := bind_eq_ok.mp h
  obtain ⟨hgood, hgives⟩ := gives_readAt hbs
  rw [← (pure_eq_ok.mp hpure).1]
  exact ⟨hgood, hgives.bind gives_pure⟩

theorem gives_readSectionHeadersAll {shTable : List Elf64Shdr}
    (h : (readSectionHeadersAll elfFile).run w = .ok shTable w') :
    w.failbit = false ∧ Gives (readSectionHeadersAll elfFile) (headersOf elfFile) := by
  obtain rfl := readSectionHeadersAll_eq_ok h
  obtain ⟨eh, w₁, heh, h⟩ := bind_eq_ok.mp h
  obtain rfl := readElfHeader_eq_ok heh
  obtain ⟨hgood, hgives⟩ := gives_readElfHeader heh
  refine ⟨hgood, hgives.bind ?_⟩
  split at h
  · cases h
  · rename_i hfits
    obtain ⟨bs, w₂, hbs, hpure⟩ := bind_eq_ok.mp h
    rw [if_neg hfits, ← (pure_eq_ok.mp hpure).1]
    exact (gives_readAt hbs).2.bind gives_pure

theorem gives_readSection {sh : Elf64Shdr} {data : List UInt8} (h : (readSection platform elfFile sh).run w = .ok data w') :
    Gives (readSection platform elfFile sh) (dataOf elfFile sh) := by
  obtain rfl := readSection_eq_ok h
  unfold readSection at h ⊢
  split at h
  · cases h
  · rename_i hsize
    rw [if_neg hsize]
    exact (gives_readAt h).2

theorem gives_readSectionHeaderStrtab (hnamed : Named elfFile) {secStrTab : List UInt8}
    (h : (readSectionHeaderStrtab platform elfFile).run w = .ok secStrTab w') :
    Gives (readSectionHeaderStrtab platform elfFile) (strtabOf elfFile) := by
  obtain ⟨sh, hsh⟩ : ∃ sh, (headersOf elfFile)[(ehdrOf elfFile).eShstrndx]? = some sh :=
    ⟨_, List.getElem?_eq_getElem hnamed.index⟩
  obtain ⟨eh, w₁, heh, h⟩ := bind_eq_ok.mp h
  obtain rfl := readElfHeader_eq_ok heh
  obtain ⟨shTable, w₂, htable, hrest⟩ := bind_eq_ok.mp h
  obtain rfl := readSectionHeadersAll_eq_ok htable
  obtain ⟨sh', w₃, hfound, hdata⟩ := bind_eq_ok.mp hrest
  obtain rfl := elementAt_eq_ok hsh hfound
  have hstrtab : strtabOf elfFile = dataOf elfFile sh' := by
    rw [strtabOf, hsh]
    rfl
  rw [hstrtab]
  exact (gives_readElfHeader heh).2.bind ((gives_readSectionHeadersAll htable).2.bind
    ((gives_elementAt hsh).bind (gives_readSection hdata)))

/-- A symbol table that has been read sorted can be read unsorted. -/
theorem gives_readSymTab {sort : Bool} {symtab : List Elf64Sym}
    (h : (readSymTab platform elfFile sort).run w = .ok symtab w') (sort' : Bool) :
    w.failbit = false ∧ Gives (readSymTab platform elfFile sort')
      (if sort' then platform.sort (symbolsOf elfFile) else symbolsOf elfFile) := by
  obtain ⟨secData, w₁, hdata, -⟩ := bind_eq_ok.mp h
  obtain ⟨shTable, w₂, htable, hdata⟩ := bind_eq_ok.mp hdata
  obtain rfl := readSectionHeadersAll_eq_ok htable
  obtain ⟨hgood, hgives⟩ := gives_readSectionHeadersAll htable
  refine ⟨hgood, ?_⟩
  cases hfind : (headersOf elfFile).find? fun sh => sh.shType = shtSymtab with
  | none =>
    rw [hfind] at hdata
    cases hdata
  | some sh =>
    rw [hfind] at hdata
    have hsection : Gives (readSectionByType platform elfFile shtSymtab) (dataOf elfFile sh) := by
      refine hgives.bind ?_
      rw [hfind]
      exact gives_readSection hdata
    rw [symbolsOf, hfind]
    exact hsection.bind gives_pure

end Reading

/-! ### Names -/

/-- The table of the sections and the section with the names can be read. -/
structure Legible (platform : Platform) (elfFile : List UInt8) : Prop where
  headers : Gives (readSectionHeadersAll elfFile) (headersOf elfFile)
  strtab : Gives (readSectionHeaderStrtab platform elfFile) (strtabOf elfFile)

section Legible
variable {platform : Platform} {elfFile : List UInt8} (hlegible : Legible platform elfFile)
include hlegible

theorem Legible.gives_getSymName {nameOff : Nat} {name : List UInt8} (hname : nameAt elfFile nameOff = some name) :
    Gives (getSymName platform elfFile nameOff) name := by
  obtain ⟨hint, htext⟩ := nameAt_eq_some.mp hname
  have hlt : nameOff < (strtabOf elfFile).length := by
    by_contra hge
    rw [List.drop_eq_nil_of_le (Nat.not_lt.mp hge)] at htext
    cases htext
  refine hlegible.strtab.bind ?_
  rw [if_neg (Nat.not_le.mpr hint), if_neg (Nat.not_le.mpr hlt), cStringAt, htext]
  exact gives_pure

theorem Legible.run_findSectionIdx {name : List UInt8} {w : World} (hw : w.failbit = false) :
    ∀ {i : Nat} {shs : List Elf64Shdr}, (∀ sh ∈ shs, (nameAt elfFile sh.shName).isSome) →
    (findSectionIdx platform elfFile name i shs).run w =
      (shs.findIdx? fun sh => nameAt elfFile sh.shName = some name).elim (.error (.ret minusOne) w)
        fun j => .ok (i + j) w
  | _, [], _ => rfl
  | i, sh :: shs, hnames => by
    obtain ⟨hsh, hshs⟩ := List.forall_mem_cons.mp hnames
    obtain ⟨text, hname⟩ := Option.isSome_iff_exists.mp hsh
    rw [findSectionIdx, EStateM.run_bind, hlegible.gives_getSymName hname w hw, List.findIdx?_cons, hname]
    dsimp only
    by_cases heq : text = name
    · rw [if_pos heq, if_pos (decide_eq_true (congrArg some heq))]
      rfl
    · rw [if_neg heq, Legible.run_findSectionIdx hw hshs, if_neg (by simpa using heq)]
      cases shs.findIdx? fun sh => nameAt elfFile sh.shName = some name with
      | none => rfl
      | some j => exact congrArg (EStateM.Result.ok · w) (Nat.succ_add_eq_add_succ i j)

theorem Legible.gives_readNames : ∀ {syms : List Elf64Sym}, (∀ sym ∈ syms, (nameAt elfFile sym.stName).isSome) →
    Gives (readNames platform elfFile syms) (syms.map (nameOf elfFile), none)
  | [], _ => gives_pure
  | sym :: syms, hsyms => by
    obtain ⟨hsym, hsyms⟩ := List.forall_mem_cons.mp hsyms
    obtain ⟨name, hname⟩ := Option.isSome_iff_exists.mp hsym
    have hnameOf : nameOf elfFile sym = name := by rw [nameOf, hname, Option.getD_some]
    rw [List.map_cons, hnameOf]
    exact (hlegible.gives_getSymName hname).tried.bind ((Legible.gives_readNames hsyms).bind gives_pure)

theorem Legible.gives_getSectionSymNames (hnamed : Named elfFile) {sectionName : List UInt8} {symbolType : Option Nat} {idx : Nat}
    (hsymtab : Gives (readSymTab platform elfFile true) (platform.sort (symbolsOf elfFile)))
    (hsymbols : ∀ sym ∈ symbolsNamed elfFile sectionName symbolType, (nameAt elfFile sym.stName).isSome)
    (hidx : firstNamed elfFile sectionName = some idx) :
    Gives (getSectionSymNames platform elfFile sectionName symbolType)
      (symbolNames elfFile platform sectionName symbolType, none) := by
  have hsection : Gives (findSectionIdx platform elfFile sectionName 0 (headersOf elfFile)) idx := by
    intro w hw
    have hfound : (headersOf elfFile).findIdx? (fun sh => nameAt elfFile sh.shName = some sectionName) = some idx := hidx
    rw [hlegible.run_findSectionIdx hw hnamed.names, hfound, Option.elim_some, Nat.zero_add]
  have hsyms : Gives (do
      let symtab ← readSymTab platform elfFile true
      let shTable ← readSectionHeadersAll elfFile
      let secIdx ← findSectionIdx platform elfFile sectionName 0 shTable
      pure (symtab.filter fun sym => sym.isNamed secIdx symbolType) : Prog _)
      ((platform.sort (symbolsOf elfFile)).filter fun sym => sym.isNamed idx symbolType) :=
    hsymtab.bind (hlegible.headers.bind (hsection.bind gives_pure))
  refine hsyms.tried.bind ?_
  rw [symbolNames, hidx]
  exact hlegible.gives_readNames fun sym hsym => hsymbols sym ((perm_sorted_symbolsNamed hidx).mem_iff.mp hsym)

end Legible

/-- Once the names of a section have been read, all that it takes to read names can be read. -/
theorem legible_of_getSectionSymNames {platform : Platform} {elfFile sectionName : List UInt8} {symbolType : Option Nat}
    {names : List (List UInt8)} {w w' : World} (hnamed : Named elfFile)
    (h : (getSectionSymNames platform elfFile sectionName symbolType).run w = .ok (names, none) w') :
    w.failbit = false ∧ Legible platform elfFile ∧ (firstNamed elfFile sectionName).isSome ∧ ∀ sort,
      Gives (readSymTab platform elfFile sort) (if sort then platform.sort (symbolsOf elfFile) else symbolsOf elfFile) := by
  obtain ⟨idx, -, hidx, -⟩ := getSectionSymNames_eq_ok hnamed h
  obtain ⟨found, w₁, hfound, h⟩ := bind_eq_ok.mp h
  rcases tried_eq_ok.mp hfound with ⟨syms, rfl, hsyms⟩ | ⟨code, rfl, -⟩
  · obtain ⟨symtab, w₂, htab, hsyms⟩ := bind_eq_ok.mp hsyms
    obtain ⟨shTable, w₃, htable, hsyms⟩ := bind_eq_ok.mp hsyms
    obtain rfl := readSectionHeadersAll_eq_ok htable
    obtain ⟨i, w₄, hsection, -⟩ := bind_eq_ok.mp hsyms
    obtain ⟨sh, shs, hcons⟩ := List.exists_cons_of_ne_nil (List.ne_nil_of_length_pos (Nat.zero_lt_of_lt hnamed.index))
    rw [hcons] at hsection
    obtain ⟨name, w₅, hname, -⟩ := bind_eq_ok.mp hsection
    obtain ⟨secStrTab, w₆, hstrtab, -⟩ := bind_eq_ok.mp hname
    exact ⟨(gives_readSymTab htab true).1, ⟨(gives_readSectionHeadersAll htable).2, gives_readSectionHeaderStrtab hnamed hstrtab⟩,
      by rw [hidx]; rfl, fun sort => (gives_readSymTab htab sort).2⟩
  · cases h

end UprobeStats.BpfLoad
