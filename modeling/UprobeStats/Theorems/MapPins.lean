import UprobeStats.Theorems.CreateMaps

/-! The pins that runs of `createMaps` leave, one run after the other. A run that fails behind a pin leaves it with the
    mode or the owners of a new file, and a later run takes it as it is. -/

namespace UprobeStats.BpfLoad
open Effect

section Runs
variable (platform : Platform) (elfFile elfPath locationPrefix : List UInt8)

/-- A new process has a stream and descriptors of its own. -/
def World.reopened (w : World) : World := { w with failbit := false, fds := [] }

def rerun (w : World) : World := after ((createMaps platform elfFile elfPath locationPrefix).run w.reopened)

def mapPath (m : BpfMapDef × List UInt8) : Path := pathOf locationPrefix (pathToObjName elfPath) m

/-- The maps of the object: each symbol is the name of the definition at its address. -/
def declaredMaps : List (BpfMapDef × List UInt8) :=
  (symbolsNamed elfFile (Text.utf8 "maps") none).filterMap fun sym =>
    if sym.stValue % 120 = 0 then
      ((mapDefsOf elfFile).getD [])[sym.stValue / 120]?.map fun mapDef => (mapDef, nameOf elfFile sym)
    else none

def declaredNode (mapDef : BpfMapDef) : Node := ⟨.map (declaredAttr platform mapDef), mapDef.mode, mapDef.uid, mapDef.gid⟩

/-- Each map that the kernel is in the range of is pinned as it is declared. -/
def PinnedAsDeclared (w : World) : Prop :=
  ∀ m ∈ declaredMaps elfFile, m.1.inRange platform = true →
    w.pins (mapPath elfPath locationPrefix m) = some (declaredNode platform m.1)

/-- The first map in range at a path. The loader takes the definitions in their order for the symbols in the order of
    their addresses, so its maps are those that are declared only where each definition has one symbol. -/
def firstFor (objName : List UInt8) (maps : List (BpfMapDef × List UInt8)) (path : Path) :
    Option (BpfMapDef × List UInt8) :=
  maps.find? fun m => m.1.inRange platform && decide (pathOf locationPrefix objName m = path)

def firstMap (path : Path) : Option (BpfMapDef × List UInt8) :=
  firstFor platform locationPrefix (pathToObjName elfPath) (mapsOf platform elfFile) path

/-- `chmod` and `chown` by one definition give what the other declares. Only the bits of a mode that both leave can be
    given, and an owner or a group of -1 is that of a new file. -/
structure BpfMapDef.Makes (made declared : BpfMapDef) : Prop where
  mode : chownMode (made.mode &&& 0o7777) = declared.mode
  uid : (if made.uid = 0xFFFFFFFF then 0 else made.uid) = declared.uid
  gid : (if made.gid = 0xFFFFFFFF then 0 else made.gid) = declared.gid

/-- Everything that is pinned is what it may be for the first of the maps at its path. -/
def FromMaps (objName : List UInt8) (φ : BpfMapDef → Node → Prop) (maps : List (BpfMapDef × List UInt8))
    (pins : Path → Option Node) : Prop :=
  ∀ path, ∀ node ∈ pins path, ∃ m, firstFor platform locationPrefix objName maps path = some m ∧ φ m.1 node

/-- What a map leaves at its path. -/
def Leaves (objName : List UInt8) (φ : BpfMapDef → Node → Prop) : Prop :=
  ∀ (m : BpfMapDef × List UInt8) w fd, w.fds.lookup fd = some (.map (declaredAttr platform m.1)) →
    PinsStep (pathOf locationPrefix objName m) (φ m.1) w.pins (after ((pinNew platform fd
      (pathOf locationPrefix objName m) m.1.mode m.1.uid m.1.gid).run w)).pins

end Runs

section Pins
variable {platform : Platform} {elfFile elfPath locationPrefix objName : List UInt8} {w w' : World}
  {m : BpfMapDef × List UInt8} {maps before : List (BpfMapDef × List UInt8)} {path : Path}

theorem madeNode_eq_iff {made declared : BpfMapDef} :
    madeNode (.map (declaredAttr platform made)) made.mode made.uid made.gid = declaredNode platform declared ↔
      declaredAttr platform made = declaredAttr platform declared ∧ made.Makes declared := by
  rw [madeNode, declaredNode, Node.mk.injEq, Object.map.injEq]
  exact and_congr_right fun _ => ⟨fun ⟨h, h', h''⟩ => ⟨h, h', h''⟩, fun ⟨h, h', h''⟩ => ⟨h, h', h''⟩⟩

/-! ### The first map at a path -/

theorem firstFor_cons_of_pos (hrange : m.1.inRange platform = true) (hpath : pathOf locationPrefix objName m = path) :
    firstFor platform locationPrefix objName (m :: maps) path = some m :=
  List.find?_cons_of_pos (by rw [hrange, hpath, decide_eq_true rfl]; rfl)

theorem firstFor_cons_of_neg (h : m.1.inRange platform = true → pathOf locationPrefix objName m ≠ path) :
    firstFor platform locationPrefix objName (m :: maps) path = firstFor platform locationPrefix objName maps path :=
  List.find?_cons_of_neg fun hfound => by
    obtain ⟨hrange, hpath⟩ := Bool.and_eq_true_iff.mp hfound
    exact h hrange (of_decide_eq_true hpath)

theorem firstFor_append_cons (hrange : m.1.inRange platform = true)
    (hbefore : ∀ m' ∈ before, m'.1.inRange platform = true →
      pathOf locationPrefix objName m' ≠ pathOf locationPrefix objName m) :
    firstFor platform locationPrefix objName (before ++ m :: maps) (pathOf locationPrefix objName m) = some m := by
  induction before with
  | nil => exact firstFor_cons_of_pos hrange rfl
  | cons m' before ih =>
    obtain ⟨hm', hbefore⟩ := List.forall_mem_cons.mp hbefore
    rw [List.cons_append, firstFor_cons_of_neg hm', ih hbefore]

/-! ### Any run -/

section Any
variable {φ : BpfMapDef → Node → Prop}

/-- A map can only pin something new where no map before it has the path. -/
theorem FromMaps.pinsStep {pins pins' : Path → Option Node}
    (h : FromMaps platform locationPrefix objName φ (before ++ m :: maps) pins) (hrange : m.1.inRange platform = true)
    (hbefore : ∀ m' ∈ before, m'.1.inRange platform = true → (pins (pathOf locationPrefix objName m')).isSome)
    (hstep : PinsStep (pathOf locationPrefix objName m) (φ m.1) pins pins') :
    FromMaps platform locationPrefix objName φ (before ++ m :: maps) pins' := by
  rcases hstep with rfl | ⟨hnone, node, hnode, rfl⟩
  · exact h
  · intro path node' hnode'
    by_cases hpath : path = pathOf locationPrefix objName m
    · subst hpath
      rw [Function.update_self] at hnode'
      cases hnode'
      refine ⟨m, firstFor_append_cons hrange fun m' hm' hrange' hsame => ?_, hnode⟩
      have hsome := hbefore m' hm' hrange'
      rw [hsame, hnone] at hsome
      cases hsome
    · rw [Function.update_of_ne hpath] at hnode'
      exact h path node' hnode'

variable (hleaves : Leaves platform locationPrefix objName φ)
include hleaves

/-- The maps that are done with are pinned when the turn of a map comes. -/
theorem fromMaps_mapM : ∀ {maps before : List (BpfMapDef × List UInt8)} {w : World},
    (∀ m' ∈ before, m'.1.inRange platform = true → (w.pins (pathOf locationPrefix objName m')).isSome) →
    FromMaps platform locationPrefix objName φ (before ++ maps) w.pins →
    FromMaps platform locationPrefix objName φ (before ++ maps)
      (after ((maps.mapM fun m => createMap platform locationPrefix objName m.1 m.2).run w)).pins
  | [], _, _, _, h => h
  | m :: maps, before, w, hbefore, h => by
    have hturn : FromMaps platform locationPrefix objName φ (before ++ m :: maps)
        (after ((createMap platform locationPrefix objName m.1 m.2).run w)).pins := by
      rcases pinsStep_createMap (hleaves m) w with hsame | ⟨hrange, hstep⟩
      · exact hsame ▸ h
      · exact h.pinsStep hrange hbefore hstep
    rw [List.mapM_cons]
    cases hrun : (createMap platform locationPrefix objName m.1 m.2).run w with
    | error stop w₁ =>
      rw [hrun] at hturn
      rwa [after_bind_of_error hrun]
    | ok fd w₁ =>
      rw [hrun] at hturn
      have hgrows : Grows (fun _ => True) w w₁ :=
        (grows_createMap (fun _ _ => trivial) locationPrefix objName m.1 m.2).of_ok hrun
      have hdone : ∀ m' ∈ before ++ [m], m'.1.inRange platform = true →
          (w₁.pins (pathOf locationPrefix objName m')).isSome := by
        intro m' hm' hrange
        rcases List.mem_append.mp hm' with hm' | hm'
        · exact hgrows.2 _ (hbefore m' hm' hrange)
        · obtain rfl := List.mem_singleton.mp hm'
          rcases createMap_eq_ok hrange hrun with ⟨hsome, hsame⟩ | ⟨-, hmade⟩
          · exact hsame ▸ hsome
          · rw [hmade, Function.update_self]
            rfl
      have hlist : before ++ m :: maps = (before ++ [m]) ++ maps := by simp
      rw [after_bind_of_ok hrun, after_bind_pure, hlist]
      exact fromMaps_mapM hdone (hlist ▸ hturn)

end Any

section Reruns
variable {φ : BpfMapDef → Node → Prop} (hleaves : Leaves platform locationPrefix (pathToObjName elfPath) φ)
  (hnamed : Named elfFile) (hmapsNamed : MapsNamed elfFile)
  (hcount : ∀ md ∈ mapDefsOf elfFile, (symbolNames elfFile platform (Text.utf8 "maps") none).length ≤ md.length)
include hleaves hnamed hmapsNamed hcount

theorem fromMaps_createMaps
    (h : FromMaps platform locationPrefix (pathToObjName elfPath) φ (mapsOf platform elfFile) w.pins) :
    FromMaps platform locationPrefix (pathToObjName elfPath) φ (mapsOf platform elfFile)
      (after ((createMaps platform elfFile elfPath locationPrefix).run w)).pins := by
  rcases @mapsRun_mapM platform elfFile elfPath locationPrefix hnamed hmapsNamed hcount w with ⟨hsame, -⟩ | ⟨w₁, hsame, hrun⟩
  · exact hsame.2.1.symm ▸ h
  · rw [hrun]
    exact @fromMaps_mapM _ _ _ _ hleaves _ [] w₁ (by simp) (hsame.2.1.symm ▸ h)

theorem fromMaps_rerun (n : Nat) (hempty : ∀ path, w.pins path = none) :
    FromMaps platform locationPrefix (pathToObjName elfPath) φ (mapsOf platform elfFile)
      ((rerun platform elfFile elfPath locationPrefix)^[n] w).pins := by
  induction n with
  | zero =>
    intro path node hnode
    rw [Function.iterate_zero, id, hempty] at hnode
    cases hnode
  | succ n ih =>
    rw [Function.iterate_succ_apply']
    exact fromMaps_createMaps hleaves hnamed hmapsNamed hcount ih

end Reruns

/-! ### A run that succeeds -/

/-- What was pinned stays as it was, and the first map at a path that was not pinned is made there. -/
theorem pins_of_mapM : ∀ {maps : List (BpfMapDef × List UInt8)} {w w' : World} {fds : List Int},
    (maps.mapM fun m => createMap platform locationPrefix objName m.1 m.2).run w = .ok fds w' → ∀ path,
    w'.pins path = (w.pins path).or ((firstFor platform locationPrefix objName maps path).map fun m =>
      madeNode (.map (declaredAttr platform m.1)) m.1.mode m.1.uid m.1.gid)
  | [], _, _, _, h, _ => by
    obtain ⟨-, rfl⟩ := pure_eq_ok.mp h
    exact Option.or_none.symm
  | m :: maps, w, w', _, h, path => by
    obtain ⟨fd, w₁, fds, hm, hmaps, rfl⟩ := mapM_cons_eq_ok.mp h
    rw [pins_of_mapM hmaps path]
    cases hrange : m.1.inRange platform with
    | false =>
      obtain ⟨-, rfl⟩ := createMap_skipped hrange hm
      rw [firstFor_cons_of_neg fun htrue => by rw [hrange] at htrue; cases htrue]
    | true =>
      by_cases hpath : pathOf locationPrefix objName m = path
      · subst hpath
        rw [firstFor_cons_of_pos hrange rfl]
        rcases createMap_eq_ok hrange hm with ⟨hsome, hsame⟩ | ⟨hnone, hmade⟩
        · obtain ⟨node, hnode⟩ := Option.isSome_iff_exists.mp hsome
          rw [hsame, hnode, Option.some_or, Option.some_or]
        · rw [hmade, Function.update_self, hnone, Option.some_or, Option.none_or, Option.map_some]
      · have hother : w₁.pins path = w.pins path := by
          rcases createMap_eq_ok hrange hm with ⟨-, hsame⟩ | ⟨-, hmade⟩
          · rw [hsame]
          · rw [hmade, Function.update_of_ne (Ne.symm hpath)]
        rw [hother, firstFor_cons_of_neg fun _ => hpath]

/-- A run that succeeds leaves the pins that it finds as they are, and the others as their first map makes them. -/
theorem pins_of_createMaps (hnamed : Named elfFile) (hmapsNamed : MapsNamed elfFile)
    (hcount : ∀ md ∈ mapDefsOf elfFile, (symbolNames elfFile platform (Text.utf8 "maps") none).length ≤ md.length)
    {fds : List Int} (hok : (createMaps platform elfFile elfPath locationPrefix).run w = .ok fds w') (path : Path) :
    w'.pins path = (w.pins path).or ((firstMap platform elfFile elfPath locationPrefix path).map fun m =>
      madeNode (.map (declaredAttr platform m.1)) m.1.mode m.1.uid m.1.gid) := by
  rcases @mapsRun_mapM platform elfFile elfPath locationPrefix hnamed hmapsNamed hcount w with ⟨hsame, hnone⟩ | ⟨w₁, hsame, hrun⟩
  · rw [hok] at hsame
    have hpins : w'.pins = w.pins := hsame.2.1
    rw [firstMap, hnone fds w' hok, hpins]
    exact Option.or_none.symm
  · have hpins : w₁.pins = w.pins := hsame.2.1
    rw [hrun] at hok
    rw [pins_of_mapM hok path, hpins, firstMap]

end Pins

/-- Where no `chmod` and no `chown` fails, whatever else does, and the first of the maps at the path of each is one that
    makes it as it is declared, every run that succeeds leaves them so. -/
theorem pinned_as_declared_of_modes_set {platform : Platform} {elfFile elfPath locationPrefix : List UInt8}
    (hnamed : Named elfFile) (hmapsNamed : MapsNamed elfFile)
    (hcount : ∀ md ∈ mapDefsOf elfFile, (symbolNames elfFile platform (Text.utf8 "maps") none).length ≤ md.length)
    (hmodes : ∀ calls path mode, platform.fails (calls ++ [.chmod path mode]) = none)
    (howners : ∀ calls path uid gid, platform.fails (calls ++ [.chown path uid gid]) = none)
    (hmakes : ∀ m ∈ declaredMaps elfFile, m.1.inRange platform = true → ∃ first,
      firstMap platform elfFile elfPath locationPrefix (mapPath elfPath locationPrefix m) = some first ∧
      declaredAttr platform first.1 = declaredAttr platform m.1 ∧ first.1.Makes m.1)
    {w w' : World} (hempty : ∀ path, w.pins path = none) (n : Nat) {fds : List Int}
    (hok : (createMaps platform elfFile elfPath locationPrefix).run
      ((rerun platform elfFile elfPath locationPrefix)^[n] w).reopened = .ok fds w') :
    PinnedAsDeclared platform elfFile elfPath locationPrefix w' := by
  have hleaves : Leaves platform locationPrefix (pathToObjName elfPath) fun mapDef node =>
      node = madeNode (.map (declaredAttr platform mapDef)) mapDef.mode mapDef.uid mapDef.gid :=
    fun m w fd hfd => pinsStep_pinNew_made (hmodes · _ _) (howners · _ _ _) hfd
  have hfrom : FromMaps platform locationPrefix (pathToObjName elfPath) _ (mapsOf platform elfFile)
      ((rerun platform elfFile elfPath locationPrefix)^[n] w).pins :=
    fromMaps_rerun hleaves hnamed hmapsNamed hcount n hempty
  intro m hm hrange
  obtain ⟨first, hfirst, hattr, hfirstMakes⟩ := hmakes m hm hrange
  have hmade := madeNode_eq_iff.mpr ⟨hattr, hfirstMakes⟩
  rw [pins_of_createMaps hnamed hmapsNamed hcount hok, hfirst, Option.map_some, hmade]
  cases hpin : World.pins (World.reopened _) (mapPath elfPath locationPrefix m) with
  | some node =>
    obtain ⟨first', hfirst', rfl⟩ := hfrom _ node hpin
    obtain rfl := Option.some.inj (hfirst'.symm.trans hfirst)
    rw [Option.some_or, hmade]
  | none => rw [Option.none_or]

/-! ### Two platforms -/

instance (platform : Platform) (elfFile elfPath locationPrefix : List UInt8) (w : World) :
    Decidable (PinnedAsDeclared platform elfFile elfPath locationPrefix w) :=
  inferInstanceAs (Decidable (∀ m ∈ declaredMaps elfFile, _ → _))

end UprobeStats.BpfLoad
