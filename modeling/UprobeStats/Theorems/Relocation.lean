import UprobeStats.Theorems.GoodStream
import UprobeStats.Theorems.CreateMaps

/-! The relocation of a code section as a function of its instructions: each 64-bit immediate load takes the descriptor
    of the last relocation for it that names a map. -/

namespace UprobeStats.BpfLoad
open Effect

/-! ### Instructions -/

/-- `struct bpf_insn` -/
structure BpfInsn where
  code : UInt8
  dstReg : Nat
  srcReg : Nat
  off : Nat
  imm : Int32
  deriving DecidableEq

/-- `BPF_LD | BPF_IMM | BPF_DW` -/
def ldImmDw : UInt8 := 0x18

def bpfPseudoMapFd : Nat := 1

def BpfInsn.decode (bs : List UInt8) : BpfInsn where
  code := bs.getD 0 0
  dstReg := (bs.getD 1 0).toNat % 16
  srcReg := (bs.getD 1 0).toNat / 16
  off := field bs 2 2
  imm := (field32 bs 4).toInt32

def BpfInsn.encode (insn : BpfInsn) : List UInt8 :=
  [insn.code, UInt8.ofNat (16 * insn.srcReg + insn.dstReg)] ++ Bytes.toLe 2 insn.off ++
    Bytes.toLe 4 insn.imm.toUInt32.toNat

/-- The whole instructions of a section. -/
def insnsOf (data : List UInt8) : List BpfInsn := decodeArray BpfInsn.decode 8 (data.length / 8) data

/-- A 64-bit immediate load takes a descriptor. -/
def BpfInsn.relocated (insn : BpfInsn) : Option Int → BpfInsn
  | some fd => if insn.code = ldImmDw then { insn with srcReg := bpfPseudoMapFd, imm := Int32.ofInt fd } else insn
  | none => insn

section Insns
variable {bs data data' : List UInt8} {k : Nat}

theorem BpfInsn.encode_decode : ∀ {bs : List UInt8}, bs.length = 8 → (BpfInsn.decode bs).encode = bs
  | [b₀, b₁, b₂, b₃, b₄, b₅, b₆, b₇], _ => by
    have hregs : UInt8.ofNat (16 * (b₁.toNat / 16) + b₁.toNat % 16) = b₁ := by
      rw [Nat.div_add_mod, UInt8.ofNat_toNat]
    have himm : (UInt32.ofNat (Bytes.ofLe [b₄, b₅, b₆, b₇])).toInt32.toUInt32.toNat = Bytes.ofLe [b₄, b₅, b₆, b₇] := by
      rw [UInt32.toUInt32_toInt32, Bytes.toNat_ofLe_uint32 rfl]
    show [b₀, UInt8.ofNat (16 * (b₁.toNat / 16) + b₁.toNat % 16)] ++ Bytes.toLe 2 (Bytes.ofLe [b₂, b₃]) ++
      Bytes.toLe 4 (UInt32.ofNat (Bytes.ofLe [b₄, b₅, b₆, b₇])).toInt32.toUInt32.toNat = _
    rw [hregs, himm]
    exact congrArg₂ (fun off imm => [b₀, b₁] ++ off ++ imm) (Bytes.toLe_ofLe [b₂, b₃]) (Bytes.toLe_ofLe [b₄, b₅, b₆, b₇])

theorem length_piece (h : 8 * k + 8 ≤ data.length) : ((data.drop (8 * k)).take 8).length = 8 := by
  rw [List.length_take, List.length_drop]
  omega

theorem getElem?_insnsOf : (insnsOf data)[k]? =
    if k < data.length / 8 then some (BpfInsn.decode ((data.drop (8 * k)).take 8)) else none := by
  rw [insnsOf, decodeArray, List.getElem?_map]
  by_cases hk : k < data.length / 8
  · rw [List.getElem?_range hk, if_pos hk, Option.map_some]
  · rw [List.getElem?_eq_none (by rw [List.length_range]; omega), if_neg hk, Option.map_none]

/-- The bytes of a section are those of its instructions, and what is behind them. -/
theorem eq_of_insnsOf (hlength : data.length = data'.length) (hinsns : insnsOf data = insnsOf data')
    (htail : data.drop (8 * (data.length / 8)) = data'.drop (8 * (data.length / 8))) : data = data' := by
  refine Bytes.eq_of_pieces (by decide) (fun k hk => ?_) htail
  have hdecode := congrArg (·[k]?) hinsns
  simp only [getElem?_insnsOf, if_pos hk, if_pos (hlength ▸ hk)] at hdecode
  rw [← BpfInsn.encode_decode (length_piece (by omega)), Option.some.inj hdecode,
    BpfInsn.encode_decode (length_piece (by omega))]

theorem BpfInsn.relocated_code (insn : BpfInsn) (fd : Option Int) : (insn.relocated fd).code = insn.code := by
  cases fd with
  | none => rfl
  | some fd =>
    rw [relocated]
    split <;> rfl

/-- The last descriptor stays. -/
theorem BpfInsn.relocated_relocated (insn : BpfInsn) (fd fd' : Option Int) :
    (insn.relocated fd).relocated fd' = insn.relocated (fd'.or fd) := by
  cases fd' with
  | none => rfl
  | some fd' =>
    rw [Option.some_or, relocated, relocated_code]
    by_cases hcode : insn.code = ldImmDw
    · rw [relocated, if_pos hcode, if_pos hcode]
      cases fd with
      | none => rfl
      | some fd => rw [relocated, if_pos hcode]
    · rw [relocated, if_neg hcode, if_neg hcode]
      cases fd with
      | none => rfl
      | some fd => rw [relocated, if_neg hcode]

end Insns

/-! ### One relocation -/

/-- The instruction of a relocation, as an `int` numbers it. -/
def Elf64Rel.insnIndex (rel : Elf64Rel) : Int := (Int32.ofNat (rel.rOffset / 8)).toInt

/-- The bytes of a 64-bit immediate load with a descriptor. -/
def relocatedBytes (bs : List UInt8) (fd : Int) : List UInt8 :=
  bs.take 1 ++ [(bs.getD 1 0 &&& 0x0F) ||| 0x10] ++ (bs.drop 2).take 2 ++ Bytes.toLe 4 (Int32.ofInt fd).toUInt32.toNat

section Step
variable {data : List UInt8} {rel : Elf64Rel} {fd : Int}

theorem relocated_byte (b : UInt8) : ((b &&& 0x0F) ||| 0x10).toNat % 16 = b.toNat % 16 ∧ ((b &&& 0x0F) ||| 0x10).toNat / 16 = 1 := by
  have hall : ∀ n < 256, ((UInt8.ofNat n &&& 0x0F) ||| 0x10).toNat % 16 = n % 16 ∧
      ((UInt8.ofNat n &&& 0x0F) ||| 0x10).toNat / 16 = 1 := by decide +kernel
  have hb := hall b.toNat b.toNat_lt
  rwa [UInt8.ofNat_toNat] at hb

theorem length_relocatedBytes {bs : List UInt8} (h : bs.length = 8) : (relocatedBytes bs fd).length = 8 := by
  simp [relocatedBytes, h]

theorem decode_relocatedBytes : ∀ {bs : List UInt8}, bs.length = 8 → (BpfInsn.decode bs).code = ldImmDw →
    BpfInsn.decode (relocatedBytes bs fd) = (BpfInsn.decode bs).relocated (some fd)
  | [b₀, b₁, b₂, b₃, b₄, b₅, b₆, b₇], _, hcode => by
    obtain ⟨hdst, hsrc⟩ := relocated_byte b₁
    have himm : (field32 (relocatedBytes [b₀, b₁, b₂, b₃, b₄, b₅, b₆, b₇] fd) 4).toInt32 = Int32.ofInt fd := by
      show (UInt32.ofNat (Bytes.ofLe (Bytes.toLe 4 (Int32.ofInt fd).toUInt32.toNat))).toInt32 = Int32.ofInt fd
      rw [Bytes.ofLe_toLe_uint32, Int32.toInt32_toUInt32]
    rw [BpfInsn.relocated, if_pos hcode, BpfInsn.decode, himm]
    exact congrArg₂ (fun dst src => BpfInsn.mk b₀ dst src (field [b₂, b₃] 0 2) (Int32.ofInt fd)) hdst hsrc

theorem getD_piece {start p : Nat} (hp : p < 8) : ((data.drop start).take 8).getD p 0 = data.getD (start + p) 0 := by
  rw [List.getD_eq_getElem?_getD, List.getD_eq_getElem?_getD, List.getElem?_take_of_lt hp, List.getElem?_drop]

/-- A relocation leaves the section as it is when it is for no such load, or it rewrites one. -/
theorem applyRelo_cases (data : List UInt8) (rel : Elf64Rel) (fd : Int) : (applyRelo data rel.rOffset fd = data ∧
      ∀ (k : Nat) insn, (insnsOf data)[k]? = some insn → rel.insnIndex = k → insn.code ≠ ldImmDw) ∨
    ∃ k : Nat, rel.insnIndex = k ∧ 8 * k + 8 ≤ data.length ∧
      (BpfInsn.decode ((data.drop (8 * k)).take 8)).code = ldImmDw ∧ applyRelo data rel.rOffset fd =
        data.take (8 * k) ++ relocatedBytes ((data.drop (8 * k)).take 8) fd ++ data.drop (8 * k + 8) := by
  have hunfold : applyRelo data rel.rOffset fd =
      if rel.insnIndex < 0 ∨ data.length < 8 * rel.insnIndex.toNat + 8 then data
      else if data.getD (8 * rel.insnIndex.toNat) 0 ≠ 0x18 then data
      else data.take (8 * rel.insnIndex.toNat + 1) ++ [(data.getD (8 * rel.insnIndex.toNat + 1) 0 &&& 0x0F) ||| 0x10] ++
        (data.drop (8 * rel.insnIndex.toNat + 2)).take 2 ++ Bytes.toLe 4 (Int32.ofInt fd).toUInt32.toNat ++
        data.drop (8 * rel.insnIndex.toNat + 8) := rfl
  rw [hunfold]
  by_cases hout : rel.insnIndex < 0 ∨ data.length < 8 * rel.insnIndex.toNat + 8
  · rw [if_pos hout]
    refine Or.inl ⟨rfl, fun k insn hk hidx => ?_⟩
    rw [getElem?_insnsOf] at hk
    split at hk
    · rw [hidx, Int.toNat_natCast] at hout
      omega
    · cases hk
  · rw [if_neg hout]
    obtain ⟨hnonneg, hwhole⟩ := not_or.mp hout
    obtain ⟨k, hk⟩ := Int.eq_ofNat_of_zero_le (Int.not_lt.mp hnonneg)
    rw [hk, Int.toNat_natCast] at hwhole ⊢
    have hcode : (BpfInsn.decode ((data.drop (8 * k)).take 8)).code = data.getD (8 * k) 0 := getD_piece (by decide)
    by_cases hload : data.getD (8 * k) 0 = 0x18
    · rw [if_neg (not_not_intro hload)]
      refine Or.inr ⟨k, rfl, Nat.not_lt.mp hwhole, hcode.trans hload, ?_⟩
      rw [relocatedBytes, getD_piece (by decide), List.take_take, List.drop_take, List.take_take, List.drop_drop, List.take_add]
      simp
    · rw [if_pos hload]
      refine Or.inl ⟨rfl, fun j insn hj hidx => ?_⟩
      obtain rfl := Int.ofNat_inj.mp hidx
      rw [getElem?_insnsOf] at hj
      split at hj
      · rw [← Option.some.inj hj, hcode]
        exact hload
      · cases hj

theorem length_applyRelo : (applyRelo data rel.rOffset fd).length = data.length := by
  rcases applyRelo_cases data rel fd with ⟨hsame, -⟩ | ⟨k, -, hwhole, -, hpatch⟩
  · rw [hsame]
  · have hpiece : ((data.drop (8 * k)).take 8).length = 8 := length_piece hwhole
    rw [hpatch, List.length_append, List.length_append, length_relocatedBytes hpiece, List.length_take, List.length_drop]
    omega

theorem drop_applyRelo : (applyRelo data rel.rOffset fd).drop (8 * (data.length / 8)) = data.drop (8 * (data.length / 8)) := by
  rcases applyRelo_cases data rel fd with ⟨hsame, -⟩ | ⟨k, -, hwhole, -, hpatch⟩
  · rw [hsame]
  · have hpiece : ((data.drop (8 * k)).take 8).length = 8 := length_piece hwhole
    have hfront : (data.take (8 * k) ++ relocatedBytes ((data.drop (8 * k)).take 8) fd).length = 8 * k + 8 := by
      rw [List.length_append, length_relocatedBytes hpiece, List.length_take]
      omega
    rw [hpatch, List.drop_append, List.drop_of_length_le (by omega), List.nil_append, hfront, List.drop_drop]
    congr 1
    omega

/-- Of the instructions only the one of the relocation takes the descriptor. -/
theorem insnsOf_applyRelo : insnsOf (applyRelo data rel.rOffset fd) =
    (insnsOf data).mapIdx fun k insn => insn.relocated (if rel.insnIndex = k then some fd else none) := by
  refine List.ext_getElem? fun k => ?_
  rw [List.getElem?_mapIdx]
  rcases applyRelo_cases data rel fd with ⟨hsame, hnone⟩ | ⟨i, hidx, hwhole, hcode, hpatch⟩
  · rw [hsame]
    cases hk : (insnsOf data)[k]? with
    | none => rfl
    | some insn =>
      rw [Option.map_some]
      by_cases heq : rel.insnIndex = k
      · rw [if_pos heq, BpfInsn.relocated, if_neg (hnone k insn hk heq)]
      · rw [if_neg heq, BpfInsn.relocated]
  · have hpiece : ((data.drop (8 * i)).take 8).length = 8 := length_piece hwhole
    rw [getElem?_insnsOf, getElem?_insnsOf, length_applyRelo, hpatch, Bytes.piece_replace (length_relocatedBytes hpiece) hwhole,
      hidx]
    by_cases hk : k < data.length / 8
    · rw [if_pos hk, if_pos hk, Option.map_some]
      by_cases heq : k = i
      · subst heq
        rw [if_pos rfl, if_pos rfl, decode_relocatedBytes hpiece hcode]
      · rw [if_neg heq, if_neg fun h => heq (Int.ofNat_inj.mp h).symm, BpfInsn.relocated]
    · rw [if_neg hk, if_neg hk, Option.map_none]

end Step

/-! ### All relocations of a section -/

/-- A relocation whose symbol is no map leaves the section as it is. -/
def applyEntry (fdOf : Elf64Rel → Option Int) (data : List UInt8) (rel : Elf64Rel) : List UInt8 :=
  match fdOf rel with
  | some fd => applyRelo data rel.rOffset fd
  | none => data

section Spec
variable (target : Elf64Rel → Int) (fdOf : Elf64Rel → Option Int)

/-- The descriptor of the last relocation for an instruction that names a map. -/
def lastFd (rels : List Elf64Rel) (k : Nat) : Option Int :=
  ((rels.filter fun rel => target rel = k).filterMap fdOf).getLast?

def relocatedInsns (rels : List Elf64Rel) (insns : List BpfInsn) : List BpfInsn :=
  insns.mapIdx fun k insn => insn.relocated (lastFd target fdOf rels k)

/-- The same section, but that each 64-bit immediate load has the descriptor of the last relocation for it that names
    a map. -/
structure Relocated (rels : List Elf64Rel) (cs cs' : CodeSection) : Prop where
  frame : cs' = { cs with data := cs'.data }
  insns : insnsOf cs'.data = relocatedInsns target fdOf rels (insnsOf cs.data)
  tail : cs'.data.drop (8 * (cs.data.length / 8)) = cs.data.drop (8 * (cs.data.length / 8))
  length : cs'.data.length = cs.data.length

end Spec

section Fold
variable {target : Elf64Rel → Int} {fdOf : Elf64Rel → Option Int} {rel : Elf64Rel} {rels : List Elf64Rel} {k : Nat}

theorem lastFd_cons :
    lastFd target fdOf (rel :: rels) k = (lastFd target fdOf rels k).or (if target rel = k then fdOf rel else none) := by
  rw [lastFd, lastFd, List.filter_cons]
  by_cases htarget : target rel = k
  · rw [if_pos (decide_eq_true htarget), if_pos htarget, List.filterMap_cons]
    cases fdOf rel with
    | none => rw [Option.or_none]
    | some fd =>
      rw [List.getLast?_cons]
      cases ((rels.filter fun rel => target rel = k).filterMap fdOf).getLast? <;> rfl
  · rw [if_neg (by simpa using htarget), if_neg htarget, Option.or_none]

theorem relocatedInsns_idem (insns : List BpfInsn) :
    relocatedInsns target fdOf rels (relocatedInsns target fdOf rels insns) = relocatedInsns target fdOf rels insns := by
  rw [relocatedInsns, relocatedInsns, List.mapIdx_mapIdx]
  congr 1
  funext k insn
  rw [Function.comp_apply, BpfInsn.relocated_relocated, Option.or_self]

theorem mapIdx_relocated_none {insns : List BpfInsn} : (insns.mapIdx fun _ insn => insn.relocated none) = insns := by
  rw [List.mapIdx_eq_iff]
  intro k
  cases insns[k]? <;> rfl

theorem insnsOf_applyEntry {data : List UInt8} : insnsOf (applyEntry fdOf data rel) =
    (insnsOf data).mapIdx fun k insn => insn.relocated (if rel.insnIndex = k then fdOf rel else none) := by
  rw [applyEntry]
  cases fdOf rel with
  | some fd => exact insnsOf_applyRelo
  | none =>
    simp only [ite_self, mapIdx_relocated_none]

theorem length_applyEntry {data : List UInt8} : (applyEntry fdOf data rel).length = data.length := by
  rw [applyEntry]
  cases fdOf rel with
  | some fd => exact length_applyRelo
  | none => rfl

theorem drop_applyEntry {data : List UInt8} :
    (applyEntry fdOf data rel).drop (8 * (data.length / 8)) = data.drop (8 * (data.length / 8)) := by
  rw [applyEntry]
  cases fdOf rel with
  | some fd => exact drop_applyRelo
  | none => rfl

theorem relocated_foldl : ∀ (rels : List Elf64Rel) (cs : CodeSection),
    Relocated Elf64Rel.insnIndex fdOf rels cs { cs with data := rels.foldl (applyEntry fdOf) cs.data }
  | [], cs => ⟨rfl, mapIdx_relocated_none.symm, rfl, rfl⟩
  | rel :: rels, cs => by
    obtain ⟨-, hinsns, htail, hlength⟩ := relocated_foldl rels { cs with data := applyEntry fdOf cs.data rel }
    refine ⟨rfl, hinsns.trans ?_, ?_, hlength.trans length_applyEntry⟩
    · rw [insnsOf_applyEntry, relocatedInsns, relocatedInsns, List.mapIdx_mapIdx]
      congr 1
      funext k insn
      rw [Function.comp_apply, BpfInsn.relocated_relocated, lastFd_cons]
    · dsimp only at htail ⊢
      rw [length_applyEntry] at htail
      exact htail.trans drop_applyEntry

/-- Relocating a section again changes nothing. -/
theorem Relocated.idem {cs cs' cs'' : CodeSection} (h : Relocated target fdOf rels cs cs')
    (h' : Relocated target fdOf rels cs' cs'') : cs'' = cs' := by
  have hdata : cs''.data = cs'.data := by
    refine eq_of_insnsOf h'.length ?_ ?_
    · rw [h'.insns, h.insns, relocatedInsns_idem]
    · rw [h'.length]
      exact h'.tail
  rw [h'.frame, hdata]

end Fold

/-! ### The functions -/

section Entries
variable (elfFile : List UInt8)

/-- The name of the symbol of a relocation, whose index is an `int`. -/
def symNameOf (rel : Elf64Rel) : Option (List UInt8) :=
  if rel.rInfo / 2 ^ 32 < 2 ^ 31 then (symbolsOf elfFile)[rel.rInfo / 2 ^ 32]?.bind fun sym => nameAt elfFile sym.stName
  else none

/-- The descriptor of the map that a relocation names. -/
def mapFdOf (maps : List (List UInt8 × Int)) (rel : Elf64Rel) : Option Int :=
  (symNameOf elfFile rel).bind fun name => maps.lookup name

def CodeSection.relocated (maps : List (List UInt8 × Int)) (cs : CodeSection) : CodeSection :=
  { cs with data := (relsOf cs.relData).foldl (applyEntry (mapFdOf elfFile maps)) cs.data }

end Entries

section Run
variable {platform : Platform} {elfFile : List UInt8} (hlegible : Legible platform elfFile)
  (hsymtab : Gives (readSymTab platform elfFile false) (symbolsOf elfFile))
include hlegible hsymtab

theorem gives_getSymNameByIdx {rel : Elf64Rel} {name : List UInt8} (h : symNameOf elfFile rel = some name) :
    Gives (getSymNameByIdx platform elfFile (rel.rInfo / 2 ^ 32)) name := by
  obtain ⟨hint, h⟩ := Option.ite_none_right_eq_some.mp h
  obtain ⟨sym, hsym, hname⟩ := Option.bind_eq_some_iff.mp h
  have hlt := (List.getElem?_eq_some_iff.mp hsym).1
  refine hsymtab.bind ?_
  rw [if_neg (Nat.not_le.mpr hint), if_neg (Nat.not_le.mpr hlt)]
  exact (gives_elementAt hsym).bind (hlegible.gives_getSymName hname)

variable {mapNames : List (List UInt8)} {mapFds : List Int} (hlength : mapNames.length = mapFds.length)
include hlength

theorem gives_relocate {inside : Prop} : ∀ {rels : List Elf64Rel} {data : List UInt8},
    (∀ rel ∈ rels, (symNameOf elfFile rel).isSome) → (inside → ∀ rel ∈ rels, ¬reloOutside data.length rel.rOffset) →
    GivesWhere inside (relocate platform elfFile mapNames mapFds rels data)
      (rels.foldl (applyEntry (mapFdOf elfFile (mapNames.zip mapFds))) data, true)
  | [], _, _, _ => gives_pure.givesWhere
  | rel :: rels, data, h, hinside => by
    obtain ⟨hrel, hrels⟩ := List.forall_mem_cons.mp h
    have hhead (hin : inside) := (List.forall_mem_cons.mp (hinside hin)).1
    have htail (hin : inside) := (List.forall_mem_cons.mp (hinside hin)).2
    obtain ⟨name, hname⟩ := Option.isSome_iff_exists.mp hrel
    have hfd : mapFdOf elfFile (mapNames.zip mapFds) rel = (mapNames.findIdx? (· = name)).bind fun j => mapFds[j]? := by
      rw [mapFdOf, hname, Option.bind_some, lookup_zip name hlength]
    refine (gives_getSymNameByIdx hlegible hsymtab hname).tried.givesWhere.bind ?_
    dsimp only
    rw [List.foldl_cons, applyEntry, hfd]
    cases hfind : mapNames.findIdx? (· = name) with
    | none => exact gives_relocate hrels htail
    | some j =>
      have hj : j < mapFds.length := hlength ▸ (List.findIdx?_eq_some_iff_findIdx_eq.mp hfind).1
      rw [Option.bind_some, List.getElem?_eq_getElem hj]
      refine (gives_elementAt (List.getElem?_eq_getElem hj)).givesWhere.bind ?_
      refine (givesWhere_strayWrite fun hin => decide_eq_false (hhead hin)).bind (gives_relocate hrels fun hin => ?_)
      rw [length_applyRelo]
      exact htail hin

theorem gives_relocateSections {inside : Prop} : ∀ {css : List CodeSection},
    (∀ cs ∈ css, ∀ rel ∈ relsOf cs.relData, (symNameOf elfFile rel).isSome) →
    (inside → ∀ cs ∈ css, ∀ rel ∈ relsOf cs.relData, ¬reloOutside cs.data.length rel.rOffset) →
    GivesWhere inside (relocateSections platform elfFile mapNames mapFds css)
      (css.map (CodeSection.relocated elfFile (mapNames.zip mapFds)))
  | [], _, _ => gives_pure.givesWhere
  | cs :: css, h, hinside => by
    obtain ⟨hcs, hcss⟩ := List.forall_mem_cons.mp h
    have hhead (hin : inside) := (List.forall_mem_cons.mp (hinside hin)).1
    have htail (hin : inside) := (List.forall_mem_cons.mp (hinside hin)).2
    exact (gives_relocate hlegible hsymtab hlength hcs hhead).bind
      ((gives_relocateSections hcss htail).bind gives_pure.givesWhere)

end Run

end UprobeStats.BpfLoad
