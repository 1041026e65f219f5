import UprobeStats.BpfLoad.Loader

/-! Where private maps and programs are pinned. The path joins the name of the object and the name within it with an
    underscore, which both names may hold. -/

namespace UprobeStats.BpfLoad
open Text

/-! ### Names -/

/-- A letter, a digit or an underscore. -/
def isIdentifierByte (b : UInt8) : Bool :=
  (48 ≤ b && b ≤ 57) || (65 ≤ b && b ≤ 90) || b = 95 || (97 ≤ b && b ≤ 122)

def CIdentifier (name : List UInt8) : Prop :=
  name ≠ [] ∧ (∀ b ∈ name, isIdentifierByte b = true) ∧ ∀ b ∈ name.head?, ¬ (48 ≤ b ∧ b ≤ 57)

instance (name : List UInt8) : Decidable (CIdentifier name) :=
  inferInstanceAs (Decidable (_ ∧ (∀ b ∈ name, _) ∧ ∀ b ∈ name.head?, _))

/-- What the name of a program's section starts with. -/
def sectionKinds : List (List UInt8) := sectionNameTypes.map Prod.fst ++ [utf8 "fuse/"]

/-- A program as its section names it. -/
structure ProgName where
  kind : List UInt8
  name : List UInt8
  kind_mem : kind ∈ sectionKinds
  identifier : CIdentifier name

/-- The name of the code section that a section of this name gives. -/
def csNameOf (oldName : List UInt8) : List UInt8 := oldName.map fun b => if b = 47 then 95 else b

def ProgName.csName (prog : ProgName) : List UInt8 := csNameOf (prog.kind ++ prog.name)

/-- An object with the names of its private maps and of its programs. -/
structure PrivateNames where
  elfPath : Path
  maps : List (List UInt8)
  progs : List ProgName
  identifier_maps : ∀ m ∈ maps, CIdentifier m
  nodup_maps : maps.Nodup
  nodup_progs : (progs.map ProgName.name).Nodup

def PrivateNames.objName (o : PrivateNames) : List UInt8 := pathToObjName o.elfPath

/-- Different maps of different or of one object have different paths, and so have different programs. -/
def PinsPrivate (locationPrefix : List UInt8) (objects : Set PrivateNames) : Prop :=
  (∀ o ∈ objects, ∀ o' ∈ objects, ∀ m ∈ o.maps, ∀ m' ∈ o'.maps, (o, m) ≠ (o', m') →
    mapPinLoc locationPrefix o.objName false m ≠ mapPinLoc locationPrefix o'.objName false m') ∧
  ∀ o ∈ objects, ∀ o' ∈ objects, ∀ p ∈ o.progs, ∀ p' ∈ o'.progs, (o, p) ≠ (o', p') →
    progPinLoc locationPrefix o.objName p.csName ≠ progPinLoc locationPrefix o'.objName p'.csName

/-- An object's name goes on as `_t` in another's, and a name in the first object is `t_m` for a name `m` in the other. -/
def Overlaps (objName objName' : List UInt8) (names names' : List (List UInt8)) : Prop :=
  ∃ t, objName' = objName ++ 95 :: t ∧ ∃ m ∈ names, ∃ m' ∈ names', m = t ++ 95 :: m'

/-- So it is for the maps of two objects, or for their programs. -/
def PrivateNames.Overlaps (o o' : PrivateNames) : Prop :=
  BpfLoad.Overlaps o.objName o'.objName o.maps o'.maps ∨
    BpfLoad.Overlaps o.objName o'.objName (o.progs.map ProgName.csName) (o'.progs.map ProgName.csName)

/-! ### Paths -/

section Paths
variable {locationPrefix objName objName' name name' : List UInt8}

theorem mapPinLoc_inj : mapPinLoc locationPrefix objName false name = mapPinLoc locationPrefix objName' false name' ↔
    objName ++ 95 :: name = objName' ++ 95 :: name' := by
  simp [mapPinLoc]

theorem upToLast_of_not_mem {c : UInt8} (h : c ∉ name) : upToLast c name = name := if_neg h

theorem progPinLoc_inj (h : 36 ∉ name) (h' : 36 ∉ name') :
    progPinLoc locationPrefix objName name = progPinLoc locationPrefix objName' name' ↔
      objName ++ 95 :: name = objName' ++ 95 :: name' := by
  simp [progPinLoc, upToLast_of_not_mem h, upToLast_of_not_mem h']

end Paths

/-! ### Names of programs -/

theorem CIdentifier.not_mem {name : List UInt8} (h : CIdentifier name) {b : UInt8} (hb : isIdentifierByte b = false) :
    b ∉ name := by
  intro hmem
  rw [h.2.1 b hmem] at hb
  cases hb

/-- None of the kinds is the start of another. -/
theorem sectionKinds_separate :
    ∀ k ∈ sectionKinds, ∀ k' ∈ sectionKinds, csNameOf k <+: csNameOf k' → k = k' := by
  decide +kernel

theorem not_mem_sectionKinds : ∀ k ∈ sectionKinds, 36 ∉ csNameOf k := by
  decide +kernel

namespace ProgName

theorem csName_eq (p : ProgName) : p.csName = csNameOf p.kind ++ p.name := by
  have hname : csNameOf p.name = p.name := by
    refine (List.map_congr_left fun b hb => if_neg ?_).trans (List.map_id _)
    rintro rfl
    exact p.identifier.not_mem (by decide) hb
  rw [csName, csNameOf, List.map_append, ← csNameOf, ← csNameOf, hname]

theorem csName_injective : Function.Injective csName := by
  intro p p' h
  rw [csName_eq, csName_eq] at h
  have hkind : p.kind = p'.kind := by
    rcases List.prefix_or_prefix_of_prefix (List.prefix_append ..) (h ▸ List.prefix_append ..) with hle | hle
    · exact (sectionKinds_separate _ p'.kind_mem _ p.kind_mem hle).symm
    · exact sectionKinds_separate _ p.kind_mem _ p'.kind_mem hle
  have hname : p.name = p'.name := by
    rw [hkind] at h
    exact List.append_cancel_left h
  cases p
  cases p'
  cases hkind
  cases hname
  rfl

/-- A name has no suffix to strip. -/
theorem not_mem_csName (p : ProgName) : 36 ∉ p.csName := by
  rw [csName_eq, List.mem_append, not_or]
  exact ⟨not_mem_sectionKinds _ p.kind_mem, p.identifier.not_mem (by decide)⟩

end ProgName

/-! ### Private paths -/

section Private
variable {objects : Set PrivateNames}

/-- Names that are joined to those of their objects are told apart unless they overlap. -/
theorem joined_ne_iff {β : Type} {names : PrivateNames → List β} {nameOf : β → List UInt8}
    (hinj : Function.Injective nameOf) (hobjects : Set.InjOn PrivateNames.objName objects) :
    (∀ o ∈ objects, ∀ o' ∈ objects, ∀ m ∈ names o, ∀ m' ∈ names o', (o, m) ≠ (o', m') →
      o.objName ++ 95 :: nameOf m ≠ o'.objName ++ 95 :: nameOf m') ↔
    ∀ o ∈ objects, ∀ o' ∈ objects, ¬ Overlaps o.objName o'.objName ((names o).map nameOf) ((names o').map nameOf) := by
  constructor
  · rintro hne o ho o' ho' ⟨t, hobj, _, hnames, _, hnames', hname⟩
    obtain ⟨m, hm, rfl⟩ := List.mem_map.mp hnames
    obtain ⟨m', hm', rfl⟩ := List.mem_map.mp hnames'
    refine hne o ho o' ho' m hm m' hm' ?_ (append_cons_inj_iff.mpr (.inr (.inl ⟨t, hobj, hname⟩)))
    intro heq
    -- An object's name does not go on in itself.
    rw [(Prod.mk.inj heq).1] at hobj
    have := congrArg List.length hobj
    simp at this
  · intro hnone o ho o' ho' m hm m' hm' hne heq
    rcases append_cons_inj_iff.mp heq with ⟨hobj, hname⟩ | ⟨t, hobj, hname⟩ | ⟨t, hobj, hname⟩
    · exact hne (Prod.ext (hobjects ho ho' hobj) (hinj hname))
    · exact hnone o ho o' ho' ⟨t, hobj, _, List.mem_map_of_mem hm, _, List.mem_map_of_mem hm', hname⟩
    · exact hnone o' ho' o ho ⟨t, hobj, _, List.mem_map_of_mem hm', _, List.mem_map_of_mem hm, hname⟩

end Private

/-- For objects with different names all private paths are different exactly when no two of the objects overlap. -/
theorem pinsPrivate_iff (locationPrefix : List UInt8) {objects : Set PrivateNames}
    (hobjects : Set.InjOn PrivateNames.objName objects) :
    PinsPrivate locationPrefix objects ↔ ∀ o ∈ objects, ∀ o' ∈ objects, ¬ o.Overlaps o' := by
  have hmaps := @joined_ne_iff objects _ PrivateNames.maps id Function.injective_id hobjects
  have hprogs := @joined_ne_iff objects _ PrivateNames.progs ProgName.csName ProgName.csName_injective hobjects
  simp only [List.map_id, id] at hmaps
  simp only [PinsPrivate, ne_eq, mapPinLoc_inj, progPinLoc_inj (ProgName.not_mem_csName _) (ProgName.not_mem_csName _)]
  rw [hmaps, hprogs]
  simp only [PrivateNames.Overlaps, not_or]
  exact ⟨fun ⟨hm, hp⟩ o ho o' ho' => ⟨hm o ho o' ho', hp o ho o' ho'⟩,
    fun h => ⟨fun o ho o' ho' => (h o ho o' ho').1, fun o ho o' ho' => (h o ho o' ho').2⟩⟩

/-- An object whose name does not go on in that of the other does not overlap with it. -/
theorem PrivateNames.not_overlaps {o o' : PrivateNames} (h : ¬ o.objName ++ [95] <+: o'.objName) : ¬ o.Overlaps o' := by
  rintro (⟨t, hobj, -⟩ | ⟨t, hobj, -⟩)
  all_goals exact h ⟨t, by rw [hobj, List.append_assoc, List.singleton_append]⟩

/-! ### Objects with one map and one program -/

def uprobeNamed (name : List UInt8) (identifier : CIdentifier name) : ProgName :=
  ⟨utf8 "uprobe/", name, by decide +kernel, identifier⟩

def oneMap (elfPath : Path) (map : List UInt8) (identifier : CIdentifier map) (prog : ProgName) : PrivateNames :=
  ⟨elfPath, [map], [prog], by simpa using identifier, List.nodup_singleton _, List.nodup_singleton _⟩

def objectA : PrivateNames :=
  oneMap (utf8 "/apex/com.android.uprobestats/etc/bpf/uprobestats/a.o") (utf8 "b_c") (by decide +kernel)
    (uprobeNamed (utf8 "p") (by decide +kernel))

def objectAB : PrivateNames :=
  oneMap (utf8 "/apex/com.android.uprobestats/etc/bpf/uprobestats/a_b.o") (utf8 "c") (by decide +kernel)
    (uprobeNamed (utf8 "p") (by decide +kernel))

def objectC : PrivateNames :=
  oneMap (utf8 "/apex/com.android.uprobestats/etc/bpf/uprobestats/c.o") (utf8 "b_c") (by decide +kernel)
    (uprobeNamed (utf8 "p") (by decide +kernel))

theorem pinsPrivate_of_objectC : PinsPrivate (utf8 "uprobestats/") {objectA, objectC} := by
  have hinj : Set.InjOn PrivateNames.objName {objectA, objectC} := by
    rw [Set.injOn_pair]
    intro h
    exact absurd h (by decide +kernel)
  refine (pinsPrivate_iff (utf8 "uprobestats/") hinj).mpr ?_
  rintro o (rfl | rfl) o' (rfl | rfl)
  all_goals exact PrivateNames.not_overlaps (by decide +kernel)

/-- The map `b_c` of the object `a` and the map `c` of the object `a_b` have one path. -/
theorem not_pinsPrivate_of_objectAB :
    Set.InjOn PrivateNames.objName {objectA, objectAB} ∧ ¬ PinsPrivate (utf8 "uprobestats/") {objectA, objectAB} := by
  constructor
  · rw [Set.injOn_pair]
    intro h
    exact absurd h (by decide +kernel)
  · rintro ⟨hmaps, -⟩
    refine hmaps objectA (.inl rfl) objectAB (.inr rfl) (utf8 "b_c") (List.mem_singleton_self _) (utf8 "c")
      (List.mem_singleton_self _) ?_ (by decide +kernel)
    intro h
    exact absurd (Prod.mk.inj h).2 (by decide +kernel)

end UprobeStats.BpfLoad
