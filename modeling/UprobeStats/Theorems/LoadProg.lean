import UprobeStats.Theorems.BpfLoadReading

/-! What `loadProg` promises for one object: the type of the programs that it loads, that an object whose code
    sections cannot be read leaves nothing behind, and what its success says of each program. -/

namespace UprobeStats.BpfLoad
open Effect

/-- Calls with `φ` have been made, and what was pinned still is. -/
def Grows (φ : Syscall → Prop) (w w' : World) : Prop :=
  (∃ calls, w'.calls = w.calls ++ calls ∧ ∀ call ∈ calls, φ call) ∧
    ∀ path, (w.pins path).isSome → (w'.pins path).isSome

section Grows
variable {φ ψ : Syscall → Prop}

instance : Std.Refl (Grows φ) := ⟨fun _ => ⟨⟨[], by simp⟩, fun _ => id⟩⟩

instance : IsTrans World (Grows φ) := by
  refine ⟨fun u v w ⟨⟨rs, hv, hrs⟩, hpins⟩ ⟨⟨rs', hw, hrs'⟩, hpins'⟩ => ⟨⟨rs ++ rs', ?_, ?_⟩, ?_⟩⟩
  · rw [hw, hv, List.append_assoc]
  · exact fun r hr => (List.mem_append.mp hr).elim (hrs r) (hrs' r)
  · exact fun path h => hpins' path (hpins path h)

theorem Grows.mono {w w' : World} (h : Grows φ w w') (hφ : ∀ call, φ call → ψ call) : Grows ψ w w' := by
  obtain ⟨⟨calls, hcalls, hall⟩, hpins⟩ := h
  exact ⟨⟨calls, hcalls, fun call hcall => hφ call (hall call hcall)⟩, hpins⟩

theorem SameKernel.grows {w w' : World} (h : SameKernel w w') : Grows φ w w' := by
  obtain ⟨hcalls, hpins, -⟩ := h
  exact ⟨⟨[], by rw [hcalls, List.append_nil], by simp⟩, fun path => by rw [hpins]; exact id⟩

theorem Reads.grows {α : Type} {x : Prog α} (h : Reads x) : Within (Grows φ) x :=
  Within.mono h fun _ _ => SameKernel.grows

/-- What was pinned before still is when the program returns. -/
theorem pinned_of_ok {α : Type} {x : Prog α} {a : α} {w w' : World} {path : Path} (hx : Within (Grows fun _ => True) x)
    (h : x.run w = .ok a w') (hpin : (w.pins path).isSome) : (w'.pins path).isSome :=
  (hx.of_ok h).2 path hpin

end Grows

/-! ### Calls -/

section Calls
variable {platform : Platform} {φ : Syscall → Prop} {α : Type} {call : Syscall}
  {effect : World → Except Errno (α × World)} {w w' : World} {path : Path}

theorem run_syscall : (syscall platform call effect).run w =
    let called := { w with calls := w.calls ++ [call] }
    match platform.fails called.calls with
    | some err => .ok (.error err) called
    | none =>
      match effect called with
      | .error err => .ok (.error err) called
      | .ok (a, w) => .ok (.ok a) w := by
  rw [syscall, run_get_bind]
  simp only [EStateM.run_bind, EStateM.run_set]
  cases platform.fails (w.calls ++ [call]) with
  | some err => rfl
  | none =>
    dsimp only
    cases effect { w with calls := w.calls ++ [call] } <;> rfl

/-- A call always returns. Where it fails it leaves the kernel as it was. -/
theorem syscall_cases {result : Except Errno α} (h : (syscall platform call effect).run w = .ok result w') :
    (∃ err, result = .error err ∧ w' = { w with calls := w.calls ++ [call] }) ∨
      ∃ a, result = .ok a ∧ effect { w with calls := w.calls ++ [call] } = .ok (a, w') := by
  rw [run_syscall] at h
  dsimp only at h
  split at h
  · cases h
    exact .inl ⟨_, rfl, rfl⟩
  · split at h
    · cases h
      exact .inl ⟨_, rfl, rfl⟩
    · cases h
      exact .inr ⟨_, rfl, by assumption⟩

theorem grows_syscall (hcall : φ call) (heffect : ∀ w a w', effect w = .ok (a, w') →
    w'.calls = w.calls ∧ ∀ path, (w.pins path).isSome → (w'.pins path).isSome) :
    Within (Grows φ) (syscall platform call effect) := by
  intro w
  have hcalled : Grows φ w { w with calls := w.calls ++ [call] } := ⟨⟨[call], rfl, by simpa using hcall⟩, fun _ => id⟩
  rw [run_syscall]
  dsimp only
  split
  · exact hcalled
  · split
    · exact hcalled
    · rename_i a w' heq
      obtain ⟨hcalls, hpins⟩ := heffect _ _ _ heq
      exact ⟨⟨[call], hcalls, by simpa using hcall⟩, hpins⟩

theorem isSome_update {pins : Path → Option Node} {node : Node} {p : Path} (h : (pins p).isSome) :
    (Function.update pins path (some node) p).isSome := by
  by_cases hp : p = path
  · rw [hp, Function.update_self]
    rfl
  · rwa [Function.update_of_ne hp]

theorem grows_access (h : φ (.access path)) : Within (Grows φ) (access platform path) :=
  grows_syscall h fun w a w' heffect => by
    split at heffect
    · cases heffect
      exact ⟨rfl, fun _ => id⟩
    · cases heffect

theorem grows_bpfFdGet (h : φ (.objGet path)) : Within (Grows φ) (bpfFdGet platform path) :=
  grows_syscall h fun w a w' heffect => by
    split at heffect
    · cases heffect
      exact ⟨rfl, fun _ => id⟩
    · cases heffect

theorem grows_bpfMapCreate {attr : MapAttr} {mapName : List UInt8} (h : φ (.mapCreate attr mapName)) :
    Within (Grows φ) (bpfMapCreate platform attr mapName) :=
  grows_syscall h fun w a w' heffect => by
    cases heffect
    exact ⟨rfl, fun _ => id⟩

theorem grows_bpfProgLoad {attr : ProgAttr} (h : φ (.progLoad attr)) : Within (Grows φ) (bpfProgLoad platform attr) :=
  grows_syscall h fun w a w' heffect => by
    cases heffect
    exact ⟨rfl, fun _ => id⟩

theorem grows_bpfGetFdMap {fd : Int} {field : MapField} (h : φ (.mapInfo fd field)) :
    Within (Grows φ) (bpfGetFdMap platform fd field) := by
  refine Within.bind (grows_syscall h fun w a w' heffect => ?_) fun _ => Within.pure _
  split at heffect
  · cases heffect
    exact ⟨rfl, fun _ => id⟩
  · cases heffect

theorem grows_bpfGetFdId {fd : Int} (h : φ (.idInfo fd)) : Within (Grows φ) (bpfGetFdId platform fd) := by
  refine Within.bind (grows_syscall h fun w a w' heffect => ?_) fun _ => Within.pure _
  cases heffect
  exact ⟨rfl, fun _ => id⟩

theorem grows_bpfFdPin {fd : Int} (h : φ (.objPin fd path)) : Within (Grows φ) (bpfFdPin platform fd path) :=
  grows_syscall h fun w a w' heffect => by
    split at heffect
    · cases heffect
    · cases heffect
    · cases heffect
      exact ⟨rfl, fun _ => isSome_update⟩

theorem grows_chmod {mode : UInt32} (h : φ (.chmod path mode)) : Within (Grows φ) (chmod platform path mode) :=
  grows_syscall h fun w a w' heffect => by
    split at heffect
    · cases heffect
    · cases heffect
      exact ⟨rfl, fun _ => isSome_update⟩

theorem grows_chown {uid gid : UInt32} (h : φ (.chown path uid gid)) : Within (Grows φ) (chown platform path uid gid) :=
  grows_syscall h fun w a w' heffect => by
    split at heffect
    · cases heffect
    · cases heffect
      exact ⟨rfl, fun _ => isSome_update⟩

theorem within_orFail {R : World → World → Prop} [Std.Refl R] {result : Except Errno α} : Within R (orFail result) := by
  cases result with
  | ok a => exact Within.pure a
  | error err => exact Within.throw _

/-- Where the path exists it is pinned. -/
theorem access_ok (h : (access platform path).run w = .ok (.ok ()) w') : (w.pins path).isSome := by
  rcases syscall_cases h with ⟨err, hresult, -⟩ | ⟨a, -, heffect⟩
  · cases hresult
  · split at heffect
    · assumption
    · cases heffect

theorem bpfFdPin_ok {fd : Int} (h : (bpfFdPin platform fd path).run w = .ok (.ok ()) w') : (w'.pins path).isSome := by
  rcases syscall_cases h with ⟨err, hresult, -⟩ | ⟨a, -, heffect⟩
  · cases hresult
  · split at heffect
    · cases heffect
    · cases heffect
    · cases heffect
      simp

theorem bpfFdGet_ok {fd : Int} (h : (bpfFdGet platform path).run w = .ok (.ok fd) w') : 0 ≤ fd := by
  rcases syscall_cases h with ⟨err, hresult, -⟩ | ⟨a, hresult, heffect⟩
  · cases hresult
  · cases hresult
    split at heffect
    · cases heffect
      exact Int.natCast_nonneg _
    · cases heffect

theorem bpfProgLoad_ok {attr : ProgAttr} {fd : Int} (h : (bpfProgLoad platform attr).run w = .ok (.ok fd) w') :
    0 ≤ fd := by
  rcases syscall_cases h with ⟨err, hresult, -⟩ | ⟨a, hresult, heffect⟩
  · cases hresult
  · cases hresult
    cases heffect
    exact Int.natCast_nonneg _

end Calls

/-! ### Maps -/

/-- A call that loads no program. -/
def Syscall.isProgLoad : Syscall → Bool
  | .progLoad _ => true
  | _ => false

section Maps
variable {platform : Platform} {φ : Syscall → Prop}

theorem grows_pinNew (h : ∀ call : Syscall, call.isProgLoad = false → φ call) (fd : Int) (path : Path)
    (mode uid gid : UInt32) : Within (Grows φ) (pinNew platform fd path mode uid gid) :=
  Within.bind (grows_bpfFdPin (h _ rfl)) fun _ => Within.bind (within_orFail) fun _ =>
    Within.bind (grows_chmod (h _ rfl)) fun _ => Within.bind (within_orFail) fun _ =>
      Within.bind (grows_chown (h _ rfl)) fun _ => within_orFail

theorem pinNew_ok {fd : Int} {path : Path} {mode uid gid : UInt32} {w w' : World}
    (h : (pinNew platform fd path mode uid gid).run w = .ok ⟨⟩ w') : (w'.pins path).isSome := by
  obtain ⟨pinned, w₁, hpin, h⟩ := bind_eq_ok.mp h
  obtain ⟨u, w₂, hok, hrest⟩ := bind_eq_ok.mp h
  cases pinned with
  | error err => cases hok
  | ok u =>
    obtain ⟨-, rfl⟩ := pure_eq_ok.mp hok
    have hrest' : Within (Grows fun _ => True) (do
        orFail (← chmod platform path mode)
        orFail (← chown platform path uid gid)) :=
      Within.bind (grows_chmod trivial) fun _ => Within.bind (within_orFail) fun _ =>
        Within.bind (grows_chown trivial) fun _ => within_orFail
    exact pinned_of_ok hrest' hrest (bpfFdPin_ok hpin)

/-- A map keeps what each of its calls keeps. -/
theorem within_createMap {R : World → World → Prop} [Std.Refl R] [IsTrans World R]
    (haccess : ∀ path, Within R (access platform path)) (hget : ∀ path, Within R (bpfFdGet platform path))
    (hcreate : ∀ attr mapName, Within R (bpfMapCreate platform attr mapName))
    (hinfo : ∀ fd field, Within R (bpfGetFdMap platform fd field)) (hid : ∀ fd, Within R (bpfGetFdId platform fd))
    (hpin : ∀ fd path mode uid gid, Within R (pinNew platform fd path mode uid gid))
    (locationPrefix objName : List UInt8) (mapDef : BpfMapDef) (mapName : List UInt8) :
    Within R (createMap platform locationPrefix objName mapDef mapName) := by
  unfold createMap
  split
  · exact Within.throw _
  split
  · exact Within.pure _
  split
  · exact Within.pure _
  refine Within.bind (haccess _) fun reuse => ?_
  have hmatch (fd : Int) (type : UInt32) : Within R (mapMatchesExpectations platform fd mapDef type) :=
    Within.bind (hinfo _ _) fun _ => Within.bind (hinfo _ _) fun _ => Within.bind (hinfo _ _) fun _ =>
      Within.bind (hinfo _ _) fun _ => Within.bind (hinfo _ _) fun _ => Within.pure _
  cases reuse with
  | ok u =>
    refine Within.bind (hget _) fun opened => Within.bind within_orFail fun fd => ?_
    refine Within.bind (hmatch _ _) fun isMatch => ?_
    split
    · exact Within.throw _
    · exact Within.bind (hid _) fun _ => Within.pure _
  | error err =>
    refine Within.bind (hcreate _ _) fun opened => Within.bind within_orFail fun fd => ?_
    refine Within.bind (hmatch _ _) fun isMatch => ?_
    split
    · exact Within.throw _
    · exact Within.bind (hpin _ _ _ _ _) fun _ => Within.bind (hid _) fun _ => Within.pure _

theorem grows_createMap (h : ∀ call : Syscall, call.isProgLoad = false → φ call) (locationPrefix objName : List UInt8)
    (mapDef : BpfMapDef) (mapName : List UInt8) :
    Within (Grows φ) (createMap platform locationPrefix objName mapDef mapName) :=
  within_createMap (fun _ => grows_access (h _ rfl)) (fun _ => grows_bpfFdGet (h _ rfl))
    (fun _ _ => grows_bpfMapCreate (h _ rfl)) (fun _ _ => grows_bpfGetFdMap (h _ rfl))
    (fun _ => grows_bpfGetFdId (h _ rfl)) (grows_pinNew h) _ _ _ _

theorem grows_createMapsFrom (h : ∀ call : Syscall, call.isProgLoad = false → φ call)
    (locationPrefix objName : List UInt8) (md : List BpfMapDef) : ∀ (i : Nat) (mapNames : List (List UInt8)),
    Within (Grows φ) (createMapsFrom platform locationPrefix objName md i mapNames)
  | _, [] => Within.pure _
  | i, _ :: mapNames =>
    Within.bind (Reads.grows reads_elementAt) fun _ => Within.bind (grows_createMap h _ _ _ _) fun _ =>
      Within.bind (grows_createMapsFrom h locationPrefix objName md (i + 1) mapNames) fun _ => Within.pure _

/-- `createMaps` loads no program. -/
theorem grows_createMaps (elfFile elfPath locationPrefix : List UInt8) :
    Within (Grows (·.isProgLoad = false)) (createMaps platform elfFile elfPath locationPrefix) := by
  refine Within.bind (Reads.grows (within_tried (reads_readSectionByName _))) fun read => ?_
  cases read with
  | error ret =>
    dsimp only
    split
    · exact Within.pure _
    · exact Within.throw _
  | ok mdData =>
    dsimp only
    split
    · exact Within.throw _
    · refine Within.bind (Reads.grows (reads_getSectionSymNames _ _)) fun result => ?_
      exact Within.bind (Reads.grows (reads_checked _)) fun _ => grows_createMapsFrom (fun _ => id) _ _ _ _ _

end Maps

/-! ### Code sections -/

/-- The same program, whatever its instructions and its descriptor are. -/
def CodeSection.SameProgram (s s' : CodeSection) : Prop :=
  s'.type = s.type ∧ s'.name = s.name ∧ s'.progDef = s.progDef

theorem CodeSection.SameProgram.refl (s : CodeSection) : s.SameProgram s := ⟨rfl, rfl, rfl⟩

theorem CodeSection.SameProgram.trans {s s' s'' : CodeSection} (h : s.SameProgram s') (h' : s'.SameProgram s'') :
    s.SameProgram s'' :=
  ⟨h'.1.trans h.1, h'.2.1.trans h.2.1, h'.2.2.trans h.2.2⟩

theorem forall₂_sameProgram_trans : ∀ {css css' css'' : List CodeSection}, css.Forall₂ CodeSection.SameProgram css' →
    css'.Forall₂ CodeSection.SameProgram css'' → css.Forall₂ CodeSection.SameProgram css''
  | _, _, _, .nil, .nil => .nil
  | _, _, _, .cons h hs, .cons h' hs' => .cons (h.trans h') (forall₂_sameProgram_trans hs hs')

theorem forall_type_of_sameProgram {type : BpfProgType} {css css' : List CodeSection}
    (h : css.Forall₂ CodeSection.SameProgram css') (hcss : ∀ cs ∈ css, cs.type = type) :
    ∀ cs ∈ css', cs.type = type := by
  induction h with
  | nil => exact hcss
  | cons hsame hrest ih =>
    obtain ⟨hcs, hcss⟩ := List.forall_mem_cons.mp hcss
    exact List.forall_mem_cons.mpr ⟨hsame.1.trans hcs, ih hcss⟩

section Sections
variable {platform : Platform} {elfFile : List UInt8} {w w' : World}

/-- A section is in the list only with a type that the location allows. -/
theorem readCodeSectionsFrom_ok {allowed : Option (List BpfProgType)} {pd : List BpfProgDef}
    {progDefNames : List (List UInt8)} : ∀ {shs : List Elf64Shdr} {i : Nat} {w w' : World} {css : List CodeSection},
    (readCodeSectionsFrom platform elfFile allowed pd progDefNames i shs).run w = .ok css w' →
      ∀ cs ∈ css, isAllowedType platform cs.type allowed = true
  | [], _, _, _, _, h => by
    obtain ⟨rfl, -⟩ := pure_eq_ok.mp h
    simp
  | sh :: shs, i, w, w', css, h => by
    obtain ⟨oldName, w₁, -, h⟩ := bind_eq_ok.mp h
    dsimp only at h
    split at h
    · exact readCodeSectionsFrom_ok h
    split at h
    · cases h
    rename_i hallowed
    obtain ⟨data, w₂, -, h⟩ := bind_eq_ok.mp h
    obtain ⟨result, w₃, -, h⟩ := bind_eq_ok.mp h
    obtain ⟨csSymNames, w₄, -, h⟩ := bind_eq_ok.mp h
    cases csSymNames with
    | nil =>
      obtain ⟨rfl, -⟩ := pure_eq_ok.mp h
      simp
    | cons csSymName _ =>
      obtain ⟨progDef, w₅, -, h⟩ := bind_eq_ok.mp h
      split at h
      · exact readCodeSectionsFrom_ok h
      obtain ⟨relData, w₆, -, h⟩ := bind_eq_ok.mp h
      obtain ⟨rest, w₇, hrest, h⟩ := bind_eq_ok.mp h
      obtain ⟨rfl, -⟩ := pure_eq_ok.mp h
      refine List.forall_mem_cons.mpr ⟨?_, readCodeSectionsFrom_ok hrest⟩
      simpa using hallowed

theorem readCodeSections_ok {allowed : Option (List BpfProgType)} {css : List CodeSection}
    (h : (readCodeSections platform elfFile allowed).run w = .ok css w') :
    ∀ cs ∈ css, isAllowedType platform cs.type allowed = true := by
  obtain ⟨shTable, w₁, -, h⟩ := bind_eq_ok.mp h
  obtain ⟨pd, w₂, -, h⟩ := bind_eq_ok.mp h
  obtain ⟨result, w₃, -, h⟩ := bind_eq_ok.mp h
  split at h
  · obtain ⟨progDefNames, w₄, -, h⟩ := bind_eq_ok.mp h
    exact readCodeSectionsFrom_ok h
  · obtain ⟨progDefNames, w₄, -, h⟩ := bind_eq_ok.mp h
    exact readCodeSectionsFrom_ok h

theorem relocateSections_ok {mapNames : List (List UInt8)} {mapFds : List Int} :
    ∀ {css css' : List CodeSection} {w w' : World},
    (relocateSections platform elfFile mapNames mapFds css).run w = .ok css' w' →
      css.Forall₂ CodeSection.SameProgram css'
  | [], _, _, _, h => by
    obtain ⟨rfl, -⟩ := pure_eq_ok.mp h
    exact .nil
  | cs :: css, css', w, w', h => by
    obtain ⟨⟨data, through⟩, w₁, -, h⟩ := bind_eq_ok.mp h
    dsimp only at h
    split at h
    · obtain ⟨css'', w₂, hrest, h⟩ := bind_eq_ok.mp h
      obtain ⟨rfl, -⟩ := pure_eq_ok.mp h
      exact .cons ⟨rfl, rfl, rfl⟩ (relocateSections_ok hrest)
    · obtain ⟨rfl, -⟩ := pure_eq_ok.mp h
      exact .cons ⟨rfl, rfl, rfl⟩ (List.forall₂_same.mpr fun s _ => .refl s)

theorem applyMapRelo_ok {mapFds : List Int} {css css' : List CodeSection}
    (h : (applyMapRelo platform elfFile mapFds css).run w = .ok css' w') :
    css.Forall₂ CodeSection.SameProgram css' := by
  obtain ⟨⟨mapNames, ret⟩, w₁, -, h⟩ := bind_eq_ok.mp h
  cases ret with
  | some ret =>
    obtain ⟨rfl, -⟩ := pure_eq_ok.mp h
    exact List.forall₂_same.mpr fun s _ => .refl s
  | none => exact relocateSections_ok h

end Sections

/-! ### Programs -/

/-- A call that loads a program loads one of a type. -/
def LoadsType (type : BpfProgType) (call : Syscall) : Prop := ∀ attr, call = .progLoad attr → attr.progType = type

theorem loadsType_of_isProgLoad {type : BpfProgType} {call : Syscall} (h : call.isProgLoad = false) :
    LoadsType type call := by
  rintro attr rfl
  cases h

/-- The program has a definition, and when it has to run here it has a descriptor and is pinned at its path. -/
def CodeSection.Loaded (platform : Platform) (locationPrefix objName : List UInt8) (pins : Path → Option Node)
    (cs : CodeSection) : Prop :=
  ∃ progDef, cs.progDef = some progDef ∧ (progDef.optional = false → progDef.inRange platform = true →
    0 ≤ cs.progFd ∧ (pins (progPinLoc locationPrefix objName cs.name)).isSome)

section Programs
variable {platform : Platform} {objName license locationPrefix : List UInt8}

theorem CodeSection.Loaded.mono {pins pins' : Path → Option Node} {cs : CodeSection}
    (h : cs.Loaded platform locationPrefix objName pins) (hpins : ∀ path, (pins path).isSome → (pins' path).isSome) :
    cs.Loaded platform locationPrefix objName pins' := by
  obtain ⟨progDef, hdef, h⟩ := h
  refine ⟨progDef, hdef, fun hmandatory hrange => ?_⟩
  obtain ⟨hfd, hpin⟩ := h hmandatory hrange
  exact ⟨hfd, hpins _ hpin⟩

/-- A turn loads the program of its section, with its code as it is. -/
theorem grows_loadCodeSection {φ : Syscall → Prop} {cs : CodeSection}
    (hquiet : ∀ call : Syscall, call.isProgLoad = false → φ call) (hload : φ (.progLoad
      ⟨cs.type, platform.kernelVersion, license, cs.data, cs.data.length / 8, cs.name.take 15⟩)) :
    Within (Grows φ) (loadCodeSection platform objName license locationPrefix cs) := by
  unfold loadCodeSection
  cases cs.progDef with
  | none => exact Within.throw _
  | some progDef =>
    dsimp only
    split
    · exact Within.pure _
    refine Within.bind (grows_access (hquiet _ rfl)) fun reuse => ?_
    cases reuse with
    | ok u =>
      refine Within.bind (grows_bpfFdGet (hquiet _ rfl)) fun opened => ?_
      cases opened with
      | error err => exact Within.throw _
      | ok fd =>
        exact Within.bind (grows_bpfGetFdId (hquiet _ rfl)) fun _ => Within.pure _
    | error err =>
      refine Within.bind (grows_bpfProgLoad hload) fun opened => ?_
      cases opened with
      | error err =>
        dsimp only
        split
        · exact Within.pure _
        · exact Within.throw _
      | ok fd =>
        refine Within.bind (grows_pinNew hquiet _ _ _ _ _) fun _ => ?_
        exact Within.bind (grows_bpfGetFdId (hquiet _ rfl)) fun _ => Within.pure _

theorem loadCodeSection_ok {cs cs' : CodeSection} {w w' : World}
    (h : (loadCodeSection platform objName license locationPrefix cs).run w = .ok cs' w') :
    cs.SameProgram cs' ∧ cs'.Loaded platform locationPrefix objName w'.pins := by
  unfold loadCodeSection at h
  cases hdef : cs.progDef with
  | none =>
    rw [hdef] at h
    cases h
  | some progDef =>
    rw [hdef] at h
    dsimp only at h
    split at h
    · rename_i hrange
      obtain ⟨rfl, -⟩ := pure_eq_ok.mp h
      refine ⟨.refl cs, progDef, hdef, fun _ hin => ?_⟩
      rw [hin] at hrange
      cases hrange
    obtain ⟨reuse, w₁, haccess, h⟩ := bind_eq_ok.mp h
    cases reuse with
    | ok u =>
      obtain ⟨opened, w₂, hget, h⟩ := bind_eq_ok.mp h
      cases opened with
      | error err => cases h
      | ok fd =>
        obtain ⟨u', w₃, hid, h⟩ := bind_eq_ok.mp h
        obtain ⟨rfl, rfl⟩ := pure_eq_ok.mp h
        refine ⟨⟨rfl, rfl, hdef.symm⟩, progDef, rfl, fun _ _ => ⟨bpfFdGet_ok hget, ?_⟩⟩
        have hw₁ := pinned_of_ok (grows_access trivial) haccess (access_ok haccess)
        have hw₂ := pinned_of_ok (grows_bpfFdGet trivial) hget hw₁
        exact pinned_of_ok (grows_bpfGetFdId trivial) hid hw₂
    | error err =>
      obtain ⟨opened, w₂, hload, h⟩ := bind_eq_ok.mp h
      cases opened with
      | error err =>
        dsimp only at h
        split at h
        · rename_i hoptional
          obtain ⟨rfl, rfl⟩ := pure_eq_ok.mp h
          refine ⟨⟨rfl, rfl, hdef.symm⟩, progDef, rfl, fun hmandatory => ?_⟩
          rw [hmandatory] at hoptional
          cases hoptional
        · cases h
      | ok fd =>
        obtain ⟨u, w₃, hpin, h⟩ := bind_eq_ok.mp h
        obtain ⟨u', w₄, hid, h⟩ := bind_eq_ok.mp h
        obtain ⟨rfl, rfl⟩ := pure_eq_ok.mp h
        refine ⟨⟨rfl, rfl, hdef.symm⟩, progDef, rfl, fun _ _ => ⟨bpfProgLoad_ok hload, ?_⟩⟩
        exact pinned_of_ok (grows_bpfGetFdId trivial) hid (pinNew_ok hpin)

/-- The loop: what one turn has pinned stays pinned in the turns after it. -/
theorem loadCodeSections_ok : ∀ {css css' : List CodeSection} {w w' : World},
    (css.mapM (loadCodeSection platform objName license locationPrefix)).run w = .ok css' w' →
      css.Forall₂ CodeSection.SameProgram css' ∧ ∀ cs ∈ css', cs.Loaded platform locationPrefix objName w'.pins
  | [], _, _, _, h => by
    obtain ⟨rfl, -⟩ := pure_eq_ok.mp h
    exact ⟨.nil, by simp⟩
  | cs :: css, _, w, w', h => by
    obtain ⟨cs', w₁, rest, hcs, hrest, rfl⟩ := mapM_cons_eq_ok.mp h
    obtain ⟨hsame, hloaded⟩ := loadCodeSection_ok hcs
    obtain ⟨hsames, hloadeds⟩ := loadCodeSections_ok hrest
    have hgrows : Within (Grows fun _ => True) (css.mapM (loadCodeSection platform objName license locationPrefix)) :=
      Within.mapM fun cs _ => grows_loadCodeSection (fun _ _ => trivial) trivial
    exact ⟨.cons hsame hsames, List.forall_mem_cons.mpr ⟨hloaded.mono (hgrows.of_ok hrest).2, hloadeds⟩⟩

end Programs

/-! ### The object -/

section Object
variable {platform : Platform} {elfPath : List UInt8} {w : World}

/-- The location allows programs of one type only. -/
theorem eq_kprobe_of_isAllowedType {type : BpfProgType}
    (h : isAllowedType platform type uprobestatsLocation.allowedProgTypes = true) : type = bpfProgTypeKprobe := by
  have hne : bpfProgTypeKprobe ≠ bpfProgTypeUnspec := by decide
  simpa [isAllowedType, uprobestatsLocation, hne] using h

/-- Each program that is loaded is a kprobe. -/
theorem grows_loadProg (elfFile : Option (List UInt8)) :
    Within (Grows (LoadsType bpfProgTypeKprobe)) (loadProg platform elfPath elfFile uprobestatsLocation) := by
  have hstart : Within (Grows (LoadsType bpfProgTypeKprobe))
      (modify fun w => { w with isCritical := false } : Prog PUnit) :=
    Reads.grows (Within.modify fun _ => ⟨rfl, rfl, rfl⟩)
  refine Within.bind hstart fun _ => ?_
  cases elfFile with
  | none => exact Within.throw _
  | some elfFile =>
    refine Within.bind (Reads.grows reads_readLicense) fun license => ?_
    refine Within.bind_of_ok (Reads.grows (reads_readCodeSections _)) fun w₁ css w₂ hcss => ?_
    have htypes (cs : CodeSection) (hcs : cs ∈ css) : cs.type = bpfProgTypeKprobe :=
      eq_kprobe_of_isAllowedType (readCodeSections_ok hcss cs hcs)
    refine Within.bind ((grows_createMaps _ _ _).mono fun _ _ h => h.mono fun _ => loadsType_of_isProgLoad)
      (fun mapFds => ?_) w₂
    refine Within.bind_of_ok (Reads.grows (reads_applyMapRelo _ _)) fun w₃ css' w₄ hcss' => ?_
    have htypes' := forall_type_of_sameProgram (applyMapRelo_ok hcss') htypes
    refine Within.bind (Reads.grows (reads_licenseString _)) (fun license => ?_) w₄
    unfold loadCodeSections
    split
    · exact Within.throw _
    · refine Within.mapM fun cs hcs => grows_loadCodeSection (fun _ => loadsType_of_isProgLoad) fun attr hattr => ?_
      cases hattr
      exact htypes' cs hcs

/-- Where `loadProg` returns 0, in whatever location, its programs are those that it has read, and they are loaded. -/
theorem loadProg_eq_ok {elfFile : Option (List UInt8)} {location : Location} {cs : List CodeSection} {w' : World}
    (h : (loadProg platform elfPath elfFile location).run w = .ok cs w') :
    (∃ file license w₁ cs₀ w₂, elfFile = some file ∧
      (readLicense platform file).run { w with isCritical := false } = .ok license w₁ ∧
      (readCodeSections platform file location.allowedProgTypes).run w₁ = .ok cs₀ w₂ ∧
      cs₀.Forall₂ CodeSection.SameProgram cs) ∧
    ∀ s ∈ cs, s.Loaded platform location.locationPrefix (pathToObjName elfPath) w'.pins := by
  unfold loadProg at h
  rw [run_modify_bind] at h
  cases elfFile with
  | none => cases h
  | some file =>
    obtain ⟨license, w₁, hlicense, h⟩ := bind_eq_ok.mp h
    obtain ⟨cs₀, w₂, hread, h⟩ := bind_eq_ok.mp h
    obtain ⟨mapFds, w₃, -, h⟩ := bind_eq_ok.mp h
    obtain ⟨cs₁, w₄, hrelo, h⟩ := bind_eq_ok.mp h
    obtain ⟨text, w₅, -, h⟩ := bind_eq_ok.mp h
    unfold loadCodeSections at h
    split at h
    · cases h
    · obtain ⟨hsame, hloaded⟩ := loadCodeSections_ok h
      exact ⟨⟨file, license, w₁, cs₀, w₂, rfl, hlicense, hread,
        forall₂_sameProgram_trans (applyMapRelo_ok hrelo) hsame⟩, hloaded⟩

/-- The contract of `loadProg` for an object of the location. It loads programs as kprobes only. Where reading
    the code sections fails it returns that error and makes no call at all. Where it returns 0 its list is the
    one that it has read, each program in it has a definition, and each one that has to run here has a descriptor
    and is pinned at its own path. -/
theorem loadProg_contract (platform : Platform) (elfPath : List UInt8) (elfFile : Option (List UInt8)) (w : World) :
    (∃ calls, (after ((loadProg platform elfPath elfFile uprobestatsLocation).run w)).calls = w.calls ++ calls ∧
      ∀ attr, .progLoad attr ∈ calls → attr.progType = bpfProgTypeKprobe) ∧
    (∀ file license w₁ stop w₂, elfFile = some file →
      (readLicense platform file).run { w with isCritical := false } = .ok license w₁ →
      (readCodeSections platform file uprobestatsLocation.allowedProgTypes).run w₁ = .error stop w₂ →
        (loadProg platform elfPath elfFile uprobestatsLocation).run w = .error stop w₂ ∧ w₂.calls = w.calls ∧
          w₂.pins = w.pins) ∧
    (∀ cs w', (loadProg platform elfPath elfFile uprobestatsLocation).run w = .ok cs w' →
      (∃ file license w₁ cs₀ w₂, elfFile = some file ∧
        (readLicense platform file).run { w with isCritical := false } = .ok license w₁ ∧
        (readCodeSections platform file uprobestatsLocation.allowedProgTypes).run w₁ = .ok cs₀ w₂ ∧
        cs₀.Forall₂ CodeSection.SameProgram cs) ∧
      ∀ s ∈ cs, s.Loaded platform uprobestatsLocation.locationPrefix (pathToObjName elfPath) w'.pins) := by
  refine ⟨?_, ?_, fun _ _ => loadProg_eq_ok⟩
  · obtain ⟨⟨calls, hcalls, hall⟩, -⟩ := @grows_loadProg platform elfPath elfFile w
    exact ⟨calls, hcalls, fun attr hattr => hall _ hattr attr rfl⟩
  · rintro file license w₁ stop w₂ rfl hlicense hread
    obtain ⟨hcalls₁, hpins₁, -⟩ := reads_readLicense.of_ok hlicense
    obtain ⟨hcalls₂, hpins₂, -⟩ := Within.of_error (R := SameKernel) (reads_readCodeSections _) hread
    refine ⟨?_, hcalls₂.trans hcalls₁, hpins₂.trans hpins₁⟩
    rw [loadProg, run_modify_bind, EStateM.run_bind, hlicense]
    dsimp only
    rw [EStateM.run_bind, hread]

end Object

theorem oneProgram_loaded : ∃ cs w',
    (loadProg quietPlatform (Text.utf8 "/a/one.o") (some oneProgram) uprobestatsLocation).run {} = .ok cs w' ∧ cs ≠ [] ∧
      ∀ s ∈ cs, s.Loaded quietPlatform uprobestatsLocation.locationPrefix (pathToObjName (Text.utf8 "/a/one.o")) w'.pins := by
  have hok : ((value? ((loadProg quietPlatform (Text.utf8 "/a/one.o") (some oneProgram) uprobestatsLocation).run {})).any
      fun cs => cs ≠ []) = true := by decide +kernel
  obtain ⟨cs, w', hrun, hne⟩ := exists_of_any_value? hok
  have hloaded := ((loadProg_contract quietPlatform (Text.utf8 "/a/one.o") (some oneProgram) {}).2.2 cs w' hrun).2
  exact ⟨cs, w', hrun, by simpa using hne, hloaded⟩

end UprobeStats.BpfLoad
