import UprobeStats.Theorems.Relocation

/-! The relocation of the maps of an object. The names of the maps are read again, in the order in which their
    descriptors are stored, so a skipped map keeps its place with a descriptor of -1. -/

namespace UprobeStats.BpfLoad
open Effect

section Maps
variable (platform : Platform) (elfFile : List UInt8)

/-- The maps of an object with their descriptors. -/
def mapsWith (mapFds : List Int) : List (List UInt8 × Int) :=
  (symbolNames elfFile platform (Text.utf8 "maps") none).zip mapFds

/-- The maps have been created, and all that it takes to relocate with them can be read. -/
structure MapsReady (mapFds : List Int) (w : World) : Prop where
  stream : w.failbit = false
  legible : Legible platform elfFile
  symtab : Gives (readSymTab platform elfFile false) (symbolsOf elfFile)
  names : Gives (getSectionSymNames platform elfFile (Text.utf8 "maps") none)
    (symbolNames elfFile platform (Text.utf8 "maps") none, none)
  length : (symbolNames elfFile platform (Text.utf8 "maps") none).length = mapFds.length
  skipped : ∀ (j : Nat) (m : BpfMapDef × List UInt8), (mapsOf platform elfFile)[j]? = some m → m.1.inRange platform = false →
    (mapsWith platform elfFile mapFds)[j]? = some (m.2, -1)

end Maps

section Ready
variable {platform : Platform} {elfFile elfPath locationPrefix : List UInt8} {w w' : World} {mapFds : List Int}
  {css : List CodeSection}

theorem mapsReady_of_createMaps (hnamed : Named elfFile) (hmapsNamed : MapsNamed elfFile)
    (hmaps : (mapDefsOf elfFile).isSome)
    (h : (createMaps platform elfFile elfPath locationPrefix).run w = .ok mapFds w') :
    MapsReady platform elfFile mapFds w' := by
  have hcases : MapsRun platform elfFile elfPath locationPrefix w _ := mapsRun_createMaps hnamed w
  rw [h] at hcases
  rcases hcases with ⟨-, hnone⟩ | ⟨md, names, w₁, w₂, -, hmd, hnames, hrun⟩
  · rw [(hnone mapFds w' rfl).2] at hmaps
    cases hmaps
  · obtain rfl := symbolNames_of_ok hnamed hmapsNamed hnames
    obtain ⟨hgood, hlegible, hfirst, hsymtab⟩ := legible_of_getSectionSymNames hnamed hnames
    obtain ⟨idx, hidx⟩ := Option.isSome_iff_exists.mp hfirst
    have hgives := hlegible.gives_getSectionSymNames hnamed (hsymtab true) hmapsNamed hidx
    obtain ⟨-, rfl⟩ := EStateM.Result.ok.inj ((hgives w₁ hgood).symm.trans hnames)
    obtain ⟨hstream, hlength, hskipped⟩ := createMapsFrom_eq_ok hrun.symm
    refine ⟨hstream.trans hgood, hlegible, hsymtab false, hgives, hlength, fun j m hm hrange => ?_⟩
    rw [mapsOf, hmd, Option.getD_some, List.getElem?_zip_eq_some] at hm
    rw [mapsWith, List.getElem?_zip_eq_some]
    have hj := (List.getElem?_eq_some_iff.mp hm.2).1
    exact ⟨hm.2, hskipped j hj m.1 (by rw [Nat.zero_add]; exact hm.1) hrange⟩

/-- Relocation goes through when each symbol has a name, and stays inside of the sections when each relocation does. -/
theorem MapsReady.gives_applyMapRelo {inside : Prop} (h : MapsReady platform elfFile mapFds w)
    (hresolved : ∀ cs ∈ css, ∀ rel ∈ relsOf cs.relData, (symNameOf elfFile rel).isSome)
    (hinside : inside → ∀ cs ∈ css, ∀ rel ∈ relsOf cs.relData, ¬reloOutside cs.data.length rel.rOffset) :
    GivesWhere inside (applyMapRelo platform elfFile mapFds css)
      (css.map (CodeSection.relocated elfFile (mapsWith platform elfFile mapFds))) :=
  h.names.givesWhere.bind (gives_relocateSections h.legible h.symtab h.length hresolved hinside)

end Ready

/-! ### Exactness -/

/-- All relocations of a section. -/
def relocationsOf (relData : List UInt8) : List Elf64Rel :=
  decodeArray Elf64Rel.decode 16 (relData.length / 16) relData

/-- The numbers that the loader keeps in an `int` fit one. -/
structure FitsInt (elfFile : List UInt8) (css : List CodeSection) : Prop where
  symbols : (symbolsOf elfFile).length < 2 ^ 31
  sections : css.length < 2 ^ 31
  relocations : ∀ cs ∈ css, cs.relData.length / 16 < 2 ^ 31
  instructions : ∀ cs ∈ css, ∀ rel ∈ relocationsOf cs.relData, rel.rOffset / 8 < 2 ^ 31

/-- The symbol of a relocation is in the table and has a name, and its offset lies in a whole instruction. -/
def Elf64Rel.Valid (elfFile data : List UInt8) (rel : Elf64Rel) : Prop :=
  (∃ sym ∈ (symbolsOf elfFile)[rel.rInfo / 2 ^ 32]?, (nameAt elfFile sym.stName).isSome) ∧
    8 * (rel.rOffset / 8) + 8 ≤ data.length

/-- The number of the instruction of a relocation. -/
def Elf64Rel.target (rel : Elf64Rel) : Int := (rel.rOffset / 8 : Nat)

section Exact
variable {elfFile : List UInt8} {css : List CodeSection}

theorem relsOf_eq {relData : List UInt8} (h : relData.length / 16 < 2 ^ 31) : relsOf relData = relocationsOf relData := by
  rw [relsOf, Int32.toInt_ofNat_of_lt h, Int.toNat_natCast, relocationsOf]

theorem symNameOf_isSome {rel : Elf64Rel} {data : List UInt8} (hfits : FitsInt elfFile css) (h : rel.Valid elfFile data) :
    (symNameOf elfFile rel).isSome := by
  obtain ⟨⟨sym, hsym, hname⟩, -⟩ := h
  have hlt := (List.getElem?_eq_some_iff.mp hsym).1
  rw [symNameOf, if_pos (hlt.trans hfits.symbols), Option.mem_def.mp hsym, Option.bind_some]
  exact hname

theorem not_reloOutside {rel : Elf64Rel} {data : List UInt8} (hint : rel.rOffset / 8 < 2 ^ 31)
    (hwhole : 8 * (rel.rOffset / 8) + 8 ≤ data.length) : ¬reloOutside data.length rel.rOffset := by
  rw [reloOutside, Int32.toInt_ofNat_of_lt hint]
  omega

theorem lastFd_congr {target target' : Elf64Rel → Int} {fdOf : Elf64Rel → Option Int} {rels : List Elf64Rel} {k : Nat}
    (h : ∀ rel ∈ rels, target rel = target' rel) : lastFd target fdOf rels k = lastFd target' fdOf rels k := by
  rw [lastFd, lastFd, List.filter_congr fun rel hrel => by rw [h rel hrel]]

/-- Where the numbers fit, an instruction has the same last relocation with them. -/
theorem lastFd_of_fits {fdOf : Elf64Rel → Option Int} {cs : CodeSection} {k : Nat} (hfits : FitsInt elfFile css) (hcs : cs ∈ css) :
    lastFd Elf64Rel.insnIndex fdOf (relsOf cs.relData) k = lastFd Elf64Rel.target fdOf (relocationsOf cs.relData) k := by
  rw [relsOf_eq (hfits.relocations cs hcs)]
  exact lastFd_congr fun rel hrel => Int32.toInt_ofNat_of_lt (hfits.instructions cs hcs rel hrel)

/-- Where the numbers fit, a section is relocated at the offsets of its relocations. -/
theorem relocated_of_fits {maps : List (List UInt8 × Int)} {cs : CodeSection} (hfits : FitsInt elfFile css) (hcs : cs ∈ css) :
    Relocated Elf64Rel.target (mapFdOf elfFile maps) (relocationsOf cs.relData) cs (cs.relocated elfFile maps) := by
  obtain ⟨hframe, hinsns, htail, hlength⟩ : Relocated Elf64Rel.insnIndex (mapFdOf elfFile maps) (relsOf cs.relData) cs
    (cs.relocated elfFile maps) := relocated_foldl _ cs
  refine ⟨hframe, hinsns.trans ?_, htail, hlength⟩
  simp only [relocatedInsns, lastFd_of_fits hfits hcs]

/-- Of lists without repetition a pair is looked up under its name. -/
theorem lookup_zip_of_getElem? {names : List (List UInt8)} {fds : List Int} {j : Nat} {name : List UInt8} {fd : Int}
    (hdistinct : names.Nodup) (hlength : names.length = fds.length) (h : (names.zip fds)[j]? = some (name, fd)) :
    (names.zip fds).lookup name = some fd := by
  obtain ⟨hname, hfd⟩ := List.getElem?_zip_eq_some.mp h
  obtain ⟨hj, rfl⟩ := List.getElem?_eq_some_iff.mp hname
  have hfind : names.findIdx? (· = names[j]) = some j := by
    rw [List.findIdx?_eq_some_iff_getElem]
    refine ⟨hj, decide_eq_true rfl, fun i hi heq => ?_⟩
    have hsame := (hdistinct.getElem_inj_iff).mp (of_decide_eq_true heq)
    omega
  rw [lookup_zip _ hlength, hfind, Option.bind_some]
  exact hfd

theorem lookup_isSome_of_mem {names : List (List UInt8)} {fds : List Int} {name : List UInt8}
    (hlength : names.length = fds.length) (h : name ∈ names) : ((names.zip fds).lookup name).isSome := by
  have hfind : (names.findIdx? (· = name)).isSome := List.findIdx?_isSome ▸ List.any_eq_true.mpr ⟨name, h, decide_eq_true rfl⟩
  obtain ⟨j, hj⟩ := Option.isSome_iff_exists.mp hfind
  have hlt : j < fds.length := hlength ▸ (List.findIdx?_eq_some_iff_findIdx_eq.mp hj).1
  rw [lookup_zip name hlength, hj, Option.bind_some, List.getElem?_eq_getElem hlt, Option.isSome_some]

end Exact

/-- Relocation with the maps of a successful `createMaps` is exact, when each relocation is valid and its numbers fit:
    it reads in range only, each 64-bit immediate load takes the descriptor that is stored for the map of the last
    relocation for it, and doing it again changes nothing. A map that was skipped has the descriptor -1. -/
theorem map_relocation_exact {platform : Platform} {elfFile elfPath locationPrefix : List UInt8} {w w' : World}
    {mapFds : List Int} {css : List CodeSection} (hnamed : Named elfFile) (hmapsNamed : MapsNamed elfFile)
    (hmaps : (mapDefsOf elfFile).isSome) (hdistinct : (symbolNames elfFile platform (Text.utf8 "maps") none).Nodup)
    (hok : (createMaps platform elfFile elfPath locationPrefix).run w = .ok mapFds w') (hfits : FitsInt elfFile css)
    (hvalid : ∀ cs ∈ css, ∀ rel ∈ relocationsOf cs.relData, rel.Valid elfFile cs.data) :
    ∃ css', (applyMapRelo platform elfFile mapFds css).run w' = .ok css' w' ∧
      css.Forall₂ (fun cs cs' => Relocated Elf64Rel.target (mapFdOf elfFile (mapsWith platform elfFile mapFds))
        (relocationsOf cs.relData) cs cs') css' ∧
      (applyMapRelo platform elfFile mapFds css').run w' = .ok css' w' ∧
      (∀ name ∈ symbolNames elfFile platform (Text.utf8 "maps") none,
        ((mapsWith platform elfFile mapFds).lookup name).isSome) ∧
      ∀ m ∈ mapsOf platform elfFile, m.1.inRange platform = false →
        (mapsWith platform elfFile mapFds).lookup m.2 = some (-1) := by
  have hready : MapsReady platform elfFile mapFds w' := mapsReady_of_createMaps hnamed hmapsNamed hmaps hok
  have hresolved : ∀ cs ∈ css, ∀ rel ∈ relsOf cs.relData, (symNameOf elfFile rel).isSome := by
    intro cs hcs rel hrel
    rw [relsOf_eq (hfits.relocations cs hcs)] at hrel
    exact symNameOf_isSome hfits (hvalid cs hcs rel hrel)
  have hresolved' : ∀ cs ∈ css.map (CodeSection.relocated elfFile (mapsWith platform elfFile mapFds)),
      ∀ rel ∈ relsOf cs.relData, (symNameOf elfFile rel).isSome := by
    intro cs' hcs'
    obtain ⟨cs, hcs, rfl⟩ := List.mem_map.mp hcs'
    exact hresolved cs hcs
  have hinside : ∀ cs ∈ css, ∀ rel ∈ relsOf cs.relData, ¬reloOutside cs.data.length rel.rOffset := by
    intro cs hcs rel hrel
    rw [relsOf_eq (hfits.relocations cs hcs)] at hrel
    exact not_reloOutside (hfits.instructions cs hcs rel hrel) (hvalid cs hcs rel hrel).2
  have hinside' : ∀ cs ∈ css.map (CodeSection.relocated elfFile (mapsWith platform elfFile mapFds)),
      ∀ rel ∈ relsOf cs.relData, ¬reloOutside cs.data.length rel.rOffset := by
    intro cs' hcs'
    obtain ⟨cs, hcs, rfl⟩ := List.mem_map.mp hcs'
    have hlength : (cs.relocated elfFile (mapsWith platform elfFile mapFds)).data.length = cs.data.length :=
      (relocated_foldl _ cs).length
    rw [hlength]
    exact hinside cs hcs
  have hgives := (hready.gives_applyMapRelo hresolved fun _ => hinside).gives trivial
  have hgives' := (hready.gives_applyMapRelo hresolved' fun _ => hinside').gives trivial
  have hidem (cs : CodeSection) : (cs.relocated elfFile (mapsWith platform elfFile mapFds)).relocated elfFile
      (mapsWith platform elfFile mapFds) = cs.relocated elfFile (mapsWith platform elfFile mapFds) :=
    (relocated_foldl _ cs).idem (relocated_foldl _ _)
  refine ⟨_, hgives w' hready.stream, ?_, ?_, fun name hname => ?_, fun m hm hrange => ?_⟩
  · rw [List.forall₂_map_right_iff, List.forall₂_same]
    exact fun cs hcs => relocated_of_fits hfits hcs
  · rw [hgives' w' hready.stream, List.map_map]
    exact congrArg (EStateM.Result.ok · w') (List.map_congr_left fun cs _ => hidem cs)
  · exact lookup_isSome_of_mem hready.length hname
  · obtain ⟨j, hj⟩ := List.mem_iff_getElem?.mp hm
    exact lookup_zip_of_getElem? hdistinct hready.length (hready.skipped j m hj hrange)

/-! ### Two lists of sections -/

def loadInsn : BpfInsn := ⟨ldImmDw, 1, 0, 0, 0⟩

/-- The map `m`, and a map `n` for no kernel. -/
def twoMaps : List UInt8 :=
  let strings := [".strtab", "maps", ".symtab", "m", "n"]
  image strings [
    ⟨"maps", 1, hashMapDef.encode ++ { hashMapDef with maxKver := 0 }.encode⟩,
    ⟨".symtab", shtSymtab, Elf64Sym.encode ⟨nameOffset strings "n", 1, 1, 120⟩ ++
      Elf64Sym.encode ⟨nameOffset strings "m", 1, 1, 0⟩⟩]

/-- A section that loads both maps, with two relocations for its first instruction. -/
def twoLoads : CodeSection where
  type := bpfProgTypeKprobe
  name := Text.utf8 "uprobe_p"
  data := loadInsn.encode ++ List.replicate 8 0 ++ loadInsn.encode ++ List.replicate 8 0
  relData := Elf64Rel.encode ⟨0, 0⟩ ++ Elf64Rel.encode ⟨0, 2 ^ 32⟩ ++ Elf64Rel.encode ⟨16, 0⟩
  progDef := none

instance (elfFile data : List UInt8) (rel : Elf64Rel) : Decidable (rel.Valid elfFile data) :=
  inferInstanceAs (Decidable ((∃ sym ∈ _, _) ∧ _))

theorem map_relocation_exact_of_twoLoads : ∃ mapFds w' css',
    (createMaps quietPlatform twoMaps [] (Text.utf8 "uprobestats/")).run {} = .ok mapFds w' ∧
    (applyMapRelo quietPlatform twoMaps mapFds [twoLoads]).run w' = .ok css' w' ∧
    (applyMapRelo quietPlatform twoMaps mapFds css').run w' = .ok css' w' ∧
    (mapsWith quietPlatform twoMaps mapFds).lookup (Text.utf8 "n") = some (-1) := by
  have hok : isOk ((createMaps quietPlatform twoMaps [] (Text.utf8 "uprobestats/")).run {}) = true := by decide +kernel
  have hskipped : ∃ m ∈ mapsOf quietPlatform twoMaps, m.1.inRange quietPlatform = false ∧ m.2 = Text.utf8 "n" := by
    decide +kernel
  obtain ⟨mapFds, w', hrun⟩ := exists_of_isOk hok
  obtain ⟨m, hm, hrange, hname⟩ := hskipped
  obtain ⟨css', hrelo, -, hagain, -, hfd⟩ := map_relocation_exact (by decide +kernel) (by decide +kernel)
    (by decide +kernel) (by decide +kernel) hrun ⟨by decide +kernel, by decide +kernel, by decide +kernel, by decide +kernel⟩
    (by decide +kernel : ∀ cs ∈ [twoLoads], ∀ rel ∈ relocationsOf cs.relData, rel.Valid twoMaps cs.data)
  exact ⟨mapFds, w', css', hrun, hrelo, hagain, hname ▸ hfd m hm hrange⟩

/-- A section whose last instruction is the load that its relocation is for. -/
def loadBehind (gap : Nat) : CodeSection where
  type := bpfProgTypeKprobe
  name := Text.utf8 "uprobe_p"
  data := loadInsn.encode ++ List.replicate gap 0 ++ loadInsn.encode
  relData := Elf64Rel.encode ⟨2 ^ 35, 0⟩
  progDef := none

section Large
variable {gap : Nat} (hgap : 8 + gap = 2 ^ 35)
include hgap

theorem length_front_loadBehind : (loadInsn.encode ++ List.replicate gap 0).length = 2 ^ 35 := by
  rw [List.length_append, List.length_replicate]
  exact hgap

theorem length_loadBehind : (loadBehind gap).data.length = 2 ^ 35 + 8 := by
  rw [loadBehind, List.length_append, length_front_loadBehind hgap]
  rfl

theorem last_loadBehind : (insnsOf (loadBehind gap).data)[2 ^ 32]? = some loadInsn := by
  have hlength := length_loadBehind hgap
  have hdrop : (loadBehind gap).data.drop (8 * 2 ^ 32) = loadInsn.encode := by
    rw [loadBehind]
    exact List.drop_left' (length_front_loadBehind hgap)
  rw [getElem?_insnsOf, hlength, if_pos (by decide), hdrop]
  rfl

/-- The number of the instruction does not fit an `int`, and the relocation goes to the first instruction. -/
theorem not_relocated_loadBehind {maps : List (List UInt8 × Int)} {fd : Int}
    (hfd : mapFdOf mapObject maps ⟨2 ^ 35, 0⟩ = some fd) : ¬Relocated Elf64Rel.target (mapFdOf mapObject maps)
      (relocationsOf (loadBehind gap).relData) (loadBehind gap) ((loadBehind gap).relocated mapObject maps) := by
  intro h
  have hrels : relocationsOf (Elf64Rel.encode ⟨2 ^ 35, 0⟩) = [⟨2 ^ 35, 0⟩] := by decide +kernel
  have hrels' : relsOf (Elf64Rel.encode ⟨2 ^ 35, 0⟩) = [⟨2 ^ 35, 0⟩] := by decide +kernel
  have htarget : lastFd Elf64Rel.target (mapFdOf mapObject maps) [⟨2 ^ 35, 0⟩] (2 ^ 32) = some fd := by
    rw [lastFd_cons, if_pos (by decide), hfd]
    rfl
  have hindex : lastFd Elf64Rel.insnIndex (mapFdOf mapObject maps) [⟨2 ^ 35, 0⟩] (2 ^ 32) = none := by
    rw [lastFd_cons, if_neg (by decide)]
    rfl
  have hactual : insnsOf ((loadBehind gap).relocated mapObject maps).data = relocatedInsns Elf64Rel.insnIndex
      (mapFdOf mapObject maps) (relsOf (Elf64Rel.encode ⟨2 ^ 35, 0⟩)) (insnsOf (loadBehind gap).data) :=
    (relocated_foldl _ _).insns
  have hexpected : insnsOf ((loadBehind gap).relocated mapObject maps).data = relocatedInsns Elf64Rel.target
      (mapFdOf mapObject maps) (relocationsOf (Elf64Rel.encode ⟨2 ^ 35, 0⟩)) (insnsOf (loadBehind gap).data) := h.insns
  have hlast := congrArg (·[2 ^ 32]?) (hactual.symm.trans hexpected)
  simp only [relocatedInsns, List.getElem?_mapIdx, last_loadBehind hgap, hrels, hrels', htarget, hindex,
    Option.map_some] at hlast
  exact absurd (congrArg BpfInsn.srcReg (Option.some.inj hlast)) Nat.zero_ne_one

end Large

theorem not_map_relocation_exact_of_loadBehind : Named mapObject ∧ MapsNamed mapObject ∧ (mapDefsOf mapObject).isSome ∧
    (symbolNames mapObject quietPlatform (Text.utf8 "maps") none).Nodup ∧
    (∀ rel ∈ relocationsOf (loadBehind (2 ^ 35 - 8)).relData, rel.Valid mapObject (loadBehind (2 ^ 35 - 8)).data) ∧
    ∃ mapFds w' cs', (createMaps quietPlatform mapObject [] (Text.utf8 "uprobestats/")).run {} = .ok mapFds w' ∧
      (applyMapRelo quietPlatform mapObject mapFds [loadBehind (2 ^ 35 - 8)]).run w' = .ok [cs'] w' ∧
      ¬Relocated Elf64Rel.target (mapFdOf mapObject (mapsWith quietPlatform mapObject mapFds))
        (relocationsOf (loadBehind (2 ^ 35 - 8)).relData) (loadBehind (2 ^ 35 - 8)) cs' := by
  have hgap : 8 + (2 ^ 35 - 8) = 2 ^ 35 := by norm_num
  have hmaps : (mapDefsOf mapObject).isSome := by decide +kernel
  generalize 2 ^ 35 - 8 = gap at hgap ⊢
  have hrels : relocationsOf (loadBehind gap).relData = [⟨2 ^ 35, 0⟩] := by
    change relocationsOf (Elf64Rel.encode ⟨2 ^ 35, 0⟩) = _
    decide +kernel
  have hresolved : ∀ cs ∈ [loadBehind gap], ∀ rel ∈ relsOf cs.relData, (symNameOf mapObject rel).isSome := by
    rw [List.forall_mem_singleton]
    change ∀ rel ∈ relsOf (Elf64Rel.encode ⟨2 ^ 35, 0⟩), _
    decide +kernel
  have hok : ((value? ((createMaps quietPlatform mapObject [] (Text.utf8 "uprobestats/")).run {})).any fun mapFds =>
      (mapFdOf mapObject (mapsWith quietPlatform mapObject mapFds) ⟨2 ^ 35, 0⟩).isSome) = true := by decide +kernel
  obtain ⟨mapFds, w', hrun, hsome⟩ := exists_of_any_value? hok
  obtain ⟨fd, hfd⟩ := Option.isSome_iff_exists.mp hsome
  have hready : MapsReady quietPlatform mapObject mapFds w' := mapsReady_of_createMaps named_mapObject mapsNamed_mapObject hmaps hrun
  have hinside : ∀ cs ∈ [loadBehind gap], ∀ rel ∈ relsOf cs.relData, ¬reloOutside cs.data.length rel.rOffset := by
    rw [List.forall_mem_singleton, length_loadBehind hgap]
    change ∀ rel ∈ relsOf (Elf64Rel.encode ⟨2 ^ 35, 0⟩), _
    decide +kernel
  have hgives := (hready.gives_applyMapRelo hresolved fun _ => hinside).gives trivial
  refine ⟨named_mapObject, mapsNamed_mapObject, hmaps, by decide +kernel, ?_, mapFds, w', _, hrun, hgives w' hready.stream,
    not_relocated_loadBehind hgap hfd⟩
  rw [hrels, List.forall_mem_singleton]
  exact ⟨by decide +kernel, by rw [length_loadBehind hgap]; decide⟩

end UprobeStats.BpfLoad
