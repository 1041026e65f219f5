import UprobeStats.BpfLoad.Boot
import UprobeStats.Theorems.CreateMaps

/-! What a run of the whole loader leaves pinned. Whatever its directories hold and whatever fails, it adds pins of
    its own kinds below its own directory, and every pin that it finds stays as it is. -/

namespace UprobeStats.BpfLoad
open Effect

/-- What was pinned still is, with its mode and its owners, and what is new is so for its path. -/
def Adds (φ : Path → Node → Prop) (w w' : World) : Prop :=
  ∀ path, w'.pins path = w.pins path ∨ (w.pins path = none ∧ ∃ node, w'.pins path = some node ∧ φ path node)

section Adds
variable {φ : Path → Node → Prop}

theorem Adds.of_pins {w w' : World} (h : w'.pins = w.pins) : Adds φ w w' := fun path => .inl (congrFun h path)

instance : FdFrame (Adds φ) where
  refl _ := .of_pins rfl
  trans u v w huv hvw path := by
    rcases huv path with hu | ⟨hnone, node, hv, hnode⟩
    · rcases hvw path with hv | ⟨hnone, hv⟩
      · exact .inl (hv.trans hu)
      · exact .inr ⟨hu ▸ hnone, hv⟩
    · rcases hvw path with hw | ⟨hnone', -⟩
      · exact .inr ⟨hnone, node, hw.trans hv, hnode⟩
      · rw [hv] at hnone'
        cases hnone'
  calls _ _ := .of_pins rfl
  fds _ _ _ h := h

instance : ReadFrame (Adds φ) where
  failbit _ := .of_pins rfl
  stray _ := .of_pins rfl

theorem Adds.of_pinsStep {ψ : Node → Prop} {path : Path} {w w' : World} (h : PinsStep path ψ w.pins w'.pins)
    (hψ : ∀ node, ψ node → φ path node) : Adds φ w w' := by
  rcases h with hsame | ⟨hnone, node, hnode, hpins⟩
  · exact .of_pins hsame
  · intro path'
    by_cases hpath : path' = path
    · subst hpath
      exact .inr ⟨hnone, node, by rw [hpins, Function.update_self], hψ node hnode⟩
    · exact .inl (by rw [hpins, Function.update_of_ne hpath])

end Adds

/-- A map lies below the maps of the location, and a program, which is a kprobe, below its programs. -/
def Placed (locationPrefix : List UInt8) (path : Path) (node : Node) : Prop :=
  match node.object with
  | .map _ => bpfFsPath ++ locationPrefix ++ Text.utf8 "map_" <+: path
  | .prog attr => attr.progType = bpfProgTypeKprobe ∧ bpfFsPath ++ locationPrefix ++ Text.utf8 "prog_" <+: path

section Objects
variable {platform : Platform} {locationPrefix objName license : List UInt8}

theorem mapPinLoc_below {shared : Bool} {mapName : List UInt8} :
    bpfFsPath ++ locationPrefix ++ Text.utf8 "map_" <+: mapPinLoc locationPrefix objName shared mapName := by
  simp only [mapPinLoc, List.append_assoc, List.prefix_append_right_inj]
  exact List.prefix_append _ _

theorem progPinLoc_below {name : List UInt8} :
    bpfFsPath ++ locationPrefix ++ Text.utf8 "prog_" <+: progPinLoc locationPrefix objName name := by
  simp only [progPinLoc, List.append_assoc, List.prefix_append_right_inj]
  exact List.prefix_append _ _

/-! ### Maps -/

theorem adds_createMap {φ : Path → Node → Prop} {mapDef : BpfMapDef} {mapName : List UInt8} (hφ : ∀ attr node,
      node.object = .map attr → φ (mapPinLoc locationPrefix objName mapDef.shared mapName) node) :
    Within (Adds φ) (createMap platform locationPrefix objName mapDef mapName) := by
  intro w
  rcases pinsStep_createMap (m := (mapDef, mapName)) (fun _ _ hfd => pinsStep_pinNew hfd) w with hsame | ⟨-, hstep⟩
  · exact .of_pins hsame.symm
  · exact .of_pinsStep hstep fun node hnode => hφ _ node hnode

theorem placed_of_map {path : Path} {attr : MapAttr} {node : Node} (hnode : node.object = .map attr)
    (hpath : bpfFsPath ++ locationPrefix ++ Text.utf8 "map_" <+: path) : Placed locationPrefix path node := by
  rw [Placed, hnode]
  exact hpath

/-! ### Programs -/

theorem within_bpfProgLoad {R : World → World → Prop} [FdFrame R] {attr : ProgAttr} :
    Within R (bpfProgLoad platform attr) :=
  within_syscall fun w w₁ _ _ h heq => by
    cases heq
    exact FdFrame.fds w w₁ _ h

theorem lookup_of_bpfProgLoad {attr : ProgAttr} {fd : Int} {w w' : World}
    (h : (bpfProgLoad platform attr).run w = .ok (.ok fd) w') : w'.fds.lookup fd = some (.prog attr) := by
  rcases syscall_cases h with ⟨err, hresult, -⟩ | ⟨a, hresult, heffect⟩
  · cases hresult
  · cases hresult
    cases heffect
    exact List.lookup_cons_self

theorem adds_loadCodeSection {φ : Path → Node → Prop} {cs : CodeSection} (hφ : ∀ attr node, attr.progType = cs.type →
      node.object = .prog attr → φ (progPinLoc locationPrefix objName cs.name) node) :
    Within (Adds φ) (loadCodeSection platform objName license locationPrefix cs) := by
  unfold loadCodeSection
  cases cs.progDef with
  | none => exact Within.throw _
  | some progDef =>
    dsimp only
    split
    · exact Within.pure _
    refine Within.bind within_access fun reuse => ?_
    cases reuse with
    | ok u =>
      refine Within.bind within_bpfFdGet fun opened => ?_
      cases opened with
      | error err => exact Within.throw _
      | ok fd => exact Within.bind within_bpfGetFdId fun _ => Within.pure _
    | error err =>
      refine Within.bind_of_ok within_bpfProgLoad fun w opened w' hload => ?_
      cases opened with
      | error err =>
        dsimp only
        split
        · exact refl_of (Adds _) w'
        · exact refl_of (Adds _) w'
      | ok fd =>
        -- The descriptor is that of the program just loaded, so this is what is pinned.
        have hfd := lookup_of_bpfProgLoad hload
        have hpin : Adds φ w' (after ((pinNew platform fd (progPinLoc locationPrefix objName cs.name) 0o440 progDef.uid
            progDef.gid).run w')) :=
          .of_pinsStep (pinsStep_pinNew hfd) fun node hnode => hφ _ node rfl hnode
        have hid (cs' : CodeSection) : Within (Adds φ) (do
            bpfGetFdId platform fd
            pure cs') := Within.bind within_bpfGetFdId fun _ => Within.pure _
        dsimp only
        cases hrun : (pinNew platform fd (progPinLoc locationPrefix objName cs.name) 0o440 progDef.uid
            progDef.gid).run w' with
        | error stop w'' =>
          rw [after_bind_of_error hrun]
          rwa [hrun] at hpin
        | ok u w'' =>
          rw [after_bind_of_ok hrun]
          rw [hrun] at hpin
          exact trans_of (Adds _) hpin (hid _ w'')

/-! ### Calls -/

section Calls
variable {φ : Syscall → Prop}

/-- The paths of maps and programs that lie below the location. -/
def Below (locationPrefix : List UInt8) (path : Path) : Prop :=
  bpfFsPath ++ locationPrefix ++ Text.utf8 "map_" <+: path ∨ bpfFsPath ++ locationPrefix ++ Text.utf8 "prog_" <+: path

/-- A call that names a path names one below the location, and a program is loaded as a kprobe. -/
def Syscall.Confined (locationPrefix : List UInt8) : Syscall → Prop
  | .access path => Below locationPrefix path
  | .objGet path => Below locationPrefix path
  | .mapCreate _ _ => True
  | .mapInfo _ _ => True
  | .idInfo _ => True
  | .progLoad attr => attr.progType = bpfProgTypeKprobe
  | .objPin _ path => Below locationPrefix path
  | .chmod path _ => Below locationPrefix path
  | .chown path _ _ => Below locationPrefix path

theorem confined_pinNew {path : Path} {fd : Int} {mode uid gid : UInt32} (hpath : Below locationPrefix path) :
    Within (Grows (Syscall.Confined locationPrefix)) (pinNew platform fd path mode uid gid) :=
  Within.bind (grows_bpfFdPin hpath) fun _ => Within.bind within_orFail fun _ =>
    Within.bind (grows_chmod hpath) fun _ => Within.bind within_orFail fun _ =>
      Within.bind (grows_chown hpath) fun _ => within_orFail

theorem confined_createMap (mapDef : BpfMapDef) (mapName : List UInt8) :
    Within (Grows (Syscall.Confined locationPrefix)) (createMap platform locationPrefix objName mapDef mapName) := by
  have hpath : Below locationPrefix (mapPinLoc locationPrefix objName mapDef.shared mapName) := .inl mapPinLoc_below
  have hmatch (fd : Int) (type : UInt32) :
      Within (Grows (Syscall.Confined locationPrefix)) (mapMatchesExpectations platform fd mapDef type) :=
    Within.bind (grows_bpfGetFdMap trivial) fun _ => Within.bind (grows_bpfGetFdMap trivial) fun _ =>
      Within.bind (grows_bpfGetFdMap trivial) fun _ => Within.bind (grows_bpfGetFdMap trivial) fun _ =>
        Within.bind (grows_bpfGetFdMap trivial) fun _ => Within.pure _
  unfold createMap
  split
  · exact Within.throw _
  split
  · exact Within.pure _
  split
  · exact Within.pure _
  refine Within.bind (grows_access hpath) fun reuse => ?_
  cases reuse with
  | ok u =>
    refine Within.bind (grows_bpfFdGet hpath) fun opened => Within.bind within_orFail fun fd => ?_
    refine Within.bind (hmatch _ _) fun isMatch => ?_
    split
    · exact Within.throw _
    · exact Within.bind (grows_bpfGetFdId trivial) fun _ => Within.pure _
  | error err =>
    refine Within.bind (grows_bpfMapCreate trivial) fun opened => Within.bind within_orFail fun fd => ?_
    refine Within.bind (hmatch _ _) fun isMatch => ?_
    split
    · exact Within.throw _
    · exact Within.bind (confined_pinNew hpath) fun _ => Within.bind (grows_bpfGetFdId trivial) fun _ => Within.pure _

theorem confined_loadCodeSection {cs : CodeSection} (htype : cs.type = bpfProgTypeKprobe) :
    Within (Grows (Syscall.Confined locationPrefix)) (loadCodeSection platform objName license locationPrefix cs) := by
  have hpath : Below locationPrefix (progPinLoc locationPrefix objName cs.name) := .inr progPinLoc_below
  unfold loadCodeSection
  cases cs.progDef with
  | none => exact Within.throw _
  | some progDef =>
    dsimp only
    split
    · exact Within.pure _
    refine Within.bind (grows_access hpath) fun reuse => ?_
    cases reuse with
    | ok u =>
      refine Within.bind (grows_bpfFdGet hpath) fun opened => ?_
      cases opened with
      | error err => exact Within.throw _
      | ok fd => exact Within.bind (grows_bpfGetFdId trivial) fun _ => Within.pure _
    | error err =>
      refine Within.bind (grows_bpfProgLoad htype) fun opened => ?_
      cases opened with
      | error err =>
        dsimp only
        split
        · exact Within.pure _
        · exact Within.throw _
      | ok fd =>
        refine Within.bind (confined_pinNew hpath) fun _ => ?_
        exact Within.bind (grows_bpfGetFdId trivial) fun _ => Within.pure _

end Calls

end Objects

/-! ### A whole run -/

/-- A relation that a run keeps apart from what its calls do. -/
class LoadFrame (R : World → World → Prop) : Prop extends ReadFrame R where
  critical : ∀ w isCritical, R w { w with isCritical }
  stream : ∀ w failbit fds, R w { w with failbit, fds }

instance {φ : Path → Node → Prop} : LoadFrame (Adds φ) where
  critical _ _ := .of_pins rfl
  stream _ _ _ := .of_pins rfl

theorem Grows.of_same {φ : Syscall → Prop} {w w' : World} (hcalls : w'.calls = w.calls) (hpins : w'.pins = w.pins) :
    Grows φ w w' :=
  ⟨⟨[], by rw [hcalls, List.append_nil], by simp⟩, fun path => by rw [hpins]; exact id⟩

instance {φ : Syscall → Prop} : LoadFrame (Grows φ) where
  failbit _ := .of_same rfl rfl
  stray _ := .of_same rfl rfl
  critical _ _ := .of_same rfl rfl
  stream _ _ _ := .of_same rfl rfl

/-- What `loadProg` does once it has the license. -/
def loadSections (platform : Platform) (elfPath elfFile : List UInt8) (location : Location) (license : List UInt8) :
    Prog (List CodeSection) := do
  let cs ← readCodeSections platform elfFile location.allowedProgTypes
  let mapFds ← createMaps platform elfFile elfPath location.locationPrefix
  let cs ← applyMapRelo platform elfFile mapFds cs
  let license ← licenseString platform license
  loadCodeSections platform elfPath cs license location.locationPrefix

theorem forall_of_sameProgram {p : BpfProgType → Prop} {css css' : List CodeSection}
    (h : css.Forall₂ CodeSection.SameProgram css') (hcss : ∀ cs ∈ css, p cs.type) : ∀ cs ∈ css', p cs.type := by
  induction h with
  | nil => exact hcss
  | cons hsame hrest ih =>
    obtain ⟨hcs, hcss⟩ := List.forall_mem_cons.mp hcss
    exact List.forall_mem_cons.mpr ⟨hsame.1 ▸ hcs, ih hcss⟩

section Sections
variable {R : World → World → Prop} [ReadFrame R] {platform : Platform} {location : Location}

theorem within_createMapsFrom {locationPrefix objName : List UInt8}
    (hmap : ∀ mapDef mapName, Within R (createMap platform locationPrefix objName mapDef mapName))
    (md : List BpfMapDef) : ∀ (i : Nat) (mapNames : List (List UInt8)),
    Within R (createMapsFrom platform locationPrefix objName md i mapNames)
  | _, [] => Within.pure _
  | i, _ :: mapNames =>
    Within.bind reads_elementAt fun _ => Within.bind (hmap _ _) fun _ =>
      Within.bind (within_createMapsFrom hmap md (i + 1) mapNames) fun _ => Within.pure _

theorem within_createMaps {locationPrefix elfPath : List UInt8}
    (hmap : ∀ mapDef mapName, Within R (createMap platform locationPrefix (pathToObjName elfPath) mapDef mapName))
    (elfFile : List UInt8) : Within R (createMaps platform elfFile elfPath locationPrefix) := by
  refine Within.bind (within_tried (reads_readSectionByName _)) fun read => ?_
  cases read with
  | error ret =>
    dsimp only
    split
    · exact Within.pure _
    · exact Within.throw _
  | ok mdData =>
    dsimp only
    split
    · exact Within.throw _
    · refine Within.bind (reads_getSectionSymNames _ _) fun result => ?_
      exact Within.bind (reads_checked _) fun _ => within_createMapsFrom hmap _ _ _

/-- An object keeps what each of its maps and each of its programs keeps. -/
theorem within_loadSections {elfPath : List UInt8}
    (hmap : ∀ mapDef mapName,
      Within R (createMap platform location.locationPrefix (pathToObjName elfPath) mapDef mapName))
    (hsection : ∀ license cs, isAllowedType platform cs.type location.allowedProgTypes = true →
      Within R (loadCodeSection platform (pathToObjName elfPath) license location.locationPrefix cs))
    (elfFile license : List UInt8) : Within R (loadSections platform elfPath elfFile location license) := by
  refine Within.bind_of_ok (reads_readCodeSections _) fun w₁ css w₂ hcss => ?_
  refine Within.bind (within_createMaps hmap elfFile) (fun mapFds => ?_) w₂
  refine Within.bind_of_ok (reads_applyMapRelo _ _) fun w₃ css' w₄ hcss' => ?_
  have htypes : ∀ cs ∈ css', isAllowedType platform cs.type location.allowedProgTypes = true :=
    forall_of_sameProgram (p := fun type => isAllowedType platform type location.allowedProgTypes = true)
      (applyMapRelo_ok hcss') (readCodeSections_ok hcss)
  refine Within.bind (reads_licenseString _) (fun license => ?_) w₄
  unfold loadCodeSections
  split
  · exact Within.throw _
  · exact Within.mapM fun cs hcs => hsection _ cs (htypes cs hcs)

end Sections

section Run
variable {R : World → World → Prop} [LoadFrame R] {platform : Platform} {location : Location}

theorem within_loadProg {elfPath : List UInt8}
    (hmap : ∀ mapDef mapName,
      Within R (createMap platform location.locationPrefix (pathToObjName elfPath) mapDef mapName))
    (hsection : ∀ license cs, isAllowedType platform cs.type location.allowedProgTypes = true →
      Within R (loadCodeSection platform (pathToObjName elfPath) license location.locationPrefix cs))
    (elfFile : Option (List UInt8)) : Within R (loadProg platform elfPath elfFile location) := by
  refine Within.bind (Within.modify fun w => LoadFrame.critical w false) fun _ => ?_
  cases elfFile with
  | none => exact Within.throw _
  | some elfFile =>
    have hlicense : Within R (readLicense platform elfFile) :=
      Within.bind (within_tried (reads_readSectionByName _)) fun _ =>
        Within.bind (Within.modify fun w => LoadFrame.critical w _) fun _ => reads_readSectionByName _
    exact Within.bind hlicense fun license => within_loadSections hmap hsection elfFile license

variable (hload : ∀ elfPath elfFile, Within R (loadProg platform elfPath elfFile location))
include hload

theorem within_loadObject (ent : DirEntry) : Within R (loadObject platform location ent) :=
  Within.bind (Within.modify fun w => LoadFrame.stream w false []) fun _ =>
    Within.bind (within_tried (hload _ _)) fun _ =>
      Within.bind (Within.modify fun w => LoadFrame.stream w w.failbit []) fun _ =>
        Within.get_bind fun w => refl_of R w

theorem within_loadEntries : ∀ (retVal : Option Ret) (ents : List DirEntry),
    Within R (loadEntries platform location retVal ents)
  | _, [] => Within.pure _
  | retVal, ent :: ents => by
    rw [loadEntries]
    split
    · exact within_loadEntries retVal ents
    · exact Within.bind (within_loadObject hload ent) fun _ => Within.bind (within_loadEntries _ ents) fun _ => Within.pure _

theorem within_loadAllElfObjects (dir : Option (List DirEntry)) : Within R (loadAllElfObjects platform location dir) := by
  cases dir with
  | none => exact Within.pure _
  | some ents => exact within_loadEntries hload none ents

end Run

/-! ### The process -/

/-- What happens to the kernel and the loads, in a run of the process. -/
def OnWorld (R : World → World → Prop) (b b' : Boot) : Prop := R b.world b'.world

section Process
variable {R : World → World → Prop} [LoadFrame R] {machine : Machine}

instance : Std.Refl (OnWorld R) := ⟨fun b => refl_of R b.world⟩

instance : IsTrans Boot (OnWorld R) := ⟨fun _ _ _ h h' => trans_of R h h'⟩

omit [LoadFrame R] in
theorem within_onWorld {α : Type} {x : Prog α} (hx : Within R x) : Within (OnWorld R) (onWorld x) := by
  intro b
  have h : R b.world (after (x.run b.world)) := hx b.world
  show R b.world (after ((onWorld x) b)).world
  rw [onWorld]
  cases hrun : x.run b.world <;> rwa [hrun] at h

theorem within_setUmask (mask : UInt32) : Within (OnWorld R) (setUmask mask) := fun b => refl_of R b.world

theorem within_mkdir (path : Path) (mode : UInt32) : Within (OnWorld R) (mkdir machine path mode) := by
  intro b
  show R b.world (after ((mkdir machine path mode).run b)).world
  rw [mkdir, run_get_bind]
  cases machine.mkdirFails path with
  | some err => exact refl_of R b.world
  | none => cases b.dirs path <;> exact refl_of R b.world

theorem within_createSysFsBpfSubDir (locationPrefix : List UInt8) :
    Within (OnWorld R) (createSysFsBpfSubDir machine locationPrefix) := by
  unfold createSysFsBpfSubDir
  split
  · exact Within.pure _
  · refine Within.bind (within_setUmask 0) fun prevUmask => Within.bind (within_mkdir _ _) fun made => ?_
    cases made with
    | ok u => exact Within.bind (within_setUmask _) fun _ => Within.pure _
    | error err =>
      dsimp only
      split
      · exact Within.pure _
      · exact Within.bind (within_setUmask _) fun _ => Within.pure _

theorem within_createBpfFsSubDirectories : ∀ ls : List Location, Within (OnWorld R) (createBpfFsSubDirectories machine ls)
  | [] => Within.pure _
  | location :: rest => by
    refine Within.bind (within_createSysFsBpfSubDir _) fun failed => ?_
    cases failed with
    | some ret => exact Within.pure _
    | none => exact within_createBpfFsSubDirectories rest

variable (hload : ∀ location ∈ locations, ∀ elfPath elfFile, Within R (loadProg machine.platform elfPath elfFile location))
include hload

theorem within_legacyBpfLoader : ∀ ls : List Location, ls ⊆ locations → Within (OnWorld R) (legacyBpfLoader machine ls)
  | [], _ => Within.pure _
  | location :: rest, hls => by
    obtain ⟨hlocation, hrest⟩ := List.cons_subset.mp hls
    refine Within.bind (within_onWorld (within_loadAllElfObjects (hload location hlocation) _)) fun _ => ?_
    exact Within.bind (within_legacyBpfLoader rest hrest) fun _ => Within.pure _

/-- The process keeps what each of its objects keeps. -/
theorem within_main : Within (OnWorld R) (main machine) := by
  have hall : Within (OnWorld R) (load machine) := by
    refine Within.bind (within_createBpfFsSubDirectories _) fun failed => ?_
    split
    · exact Within.pure _
    · exact within_legacyBpfLoader hload locations (List.Subset.refl _)
  exact Within.bind hall fun _ => Within.bind (Within.modify fun b => refl_of R b.world) fun _ => Within.pure _

end Process

/-- Whatever a run finds and whatever fails in it, no pin that it finds changes, each new one is a map or a kprobe at a
    path below the location for it, and none of its calls names another path or loads another type of program. -/
theorem main_confined (machine : Machine) (b : Boot) :
    let w := b.world
    let w' := (after ((main machine).run b)).world
    (∀ path node, w.pins path = some node → w'.pins path = some node) ∧
      (∀ path node, w.pins path = none → w'.pins path = some node →
        Placed uprobestatsLocation.locationPrefix path node) ∧
      ∃ calls, w'.calls = w.calls ++ calls ∧
        ∀ call ∈ calls, call.Confined uprobestatsLocation.locationPrefix := by
  have hkprobe (cs : CodeSection)
      (h : isAllowedType machine.platform cs.type uprobestatsLocation.allowedProgTypes = true) :
      cs.type = bpfProgTypeKprobe := eq_kprobe_of_isAllowedType h
  have hadds : OnWorld (Adds (Placed uprobestatsLocation.locationPrefix)) b (after ((main machine).run b)) := by
    refine within_main (fun location hlocation elfPath elfFile => ?_) b
    obtain rfl := List.mem_singleton.mp hlocation
    have hmap (mapDef : BpfMapDef) (mapName : List UInt8) : Within (Adds (Placed uprobestatsLocation.locationPrefix))
        (createMap machine.platform uprobestatsLocation.locationPrefix (pathToObjName elfPath) mapDef mapName) :=
      adds_createMap fun _ _ hnode => placed_of_map hnode mapPinLoc_below
    refine within_loadProg hmap (fun _ cs h => adds_loadCodeSection fun attr node htype hnode => ?_) elfFile
    rw [Placed, hnode]
    exact ⟨htype.trans (hkprobe cs h), progPinLoc_below⟩
  have hcalls : OnWorld (Grows (Syscall.Confined uprobestatsLocation.locationPrefix)) b
      (after ((main machine).run b)) := by
    refine within_main (fun location hlocation elfPath elfFile => ?_) b
    obtain rfl := List.mem_singleton.mp hlocation
    exact within_loadProg confined_createMap (fun _ cs h => confined_loadCodeSection (hkprobe cs h)) elfFile
  refine ⟨fun path node hpin => ?_, fun path node hnone hpin => ?_, hcalls.1⟩
  · rcases hadds path with hsame | ⟨hnone, -⟩
    · exact hsame.trans hpin
    · rw [hpin] at hnone
      cases hnone
  · rcases hadds path with hsame | ⟨-, node', hpin', hplaced⟩
    · rw [hsame, hnone] at hpin
      cases hpin
    · obtain rfl := Option.some.inj (hpin'.symm.trans hpin)
      exact hplaced

end UprobeStats.BpfLoad
