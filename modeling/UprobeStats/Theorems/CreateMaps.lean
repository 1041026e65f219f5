import UprobeStats.Theorems.ElfObjects
import UprobeStats.Theorems.LoadProg

/-! What `createMaps` leaves in the kernel. It goes through the maps of the object, each a definition with the name of
    its symbol, and pins at most one new object for each. -/

namespace UprobeStats.BpfLoad
open Effect

section Maps
variable (platform : Platform) (elfFile : List UInt8)

/-- The definitions, each with the name that it is paired with. -/
def mapsOf : List (BpfMapDef × List UInt8) :=
  ((mapDefsOf elfFile).getD []).zip (symbolNames elfFile platform (Text.utf8 "maps") none)

/-- The symbols of the maps have names. -/
def MapsNamed : Prop := ∀ sym ∈ symbolsNamed elfFile (Text.utf8 "maps") none, (nameAt elfFile sym.stName).isSome

/-- The running kernel is one that the map is for. -/
def BpfMapDef.inRange (mapDef : BpfMapDef) : Bool :=
  decide (mapDef.minKver ≤ platform.kernelVersion ∧ platform.kernelVersion < mapDef.maxKver)

/-- The map of a definition, with the adjustments for the kernel and the flag that the kernel adds. -/
def declaredAttr (mapDef : BpfMapDef) : MapAttr :=
  MapAttr.created ⟨mapType platform mapDef, mapDef.keySize, mapDef.valueSize,
    desiredMaxEntries platform mapDef (mapType platform mapDef), mapDef.mapFlags⟩

def pathOf (locationPrefix objName : List UInt8) (m : BpfMapDef × List UInt8) : Path :=
  mapPinLoc locationPrefix objName m.1.shared m.2

/-- What a new pin is after `chmod` and `chown`. -/
def madeNode (object : Object) (mode uid gid : UInt32) : Node where
  object
  mode := chownMode (mode &&& 0o7777)
  uid := if uid = 0xFFFFFFFF then 0 else uid
  gid := if gid = 0xFFFFFFFF then 0 else gid

end Maps

/-! ### Calls -/

/-- A relation that a call keeps whatever it answers. -/
class CallFrame (R : World → World → Prop) : Prop extends Std.Refl R, IsTrans World R where
  calls : ∀ w calls, R w { w with calls }

/-- A relation that the call also keeps when it opens a descriptor. -/
class FdFrame (R : World → World → Prop) : Prop extends CallFrame R where
  fds : ∀ w w' fds, R w w' → R w { w' with fds }

/-- Nothing is pinned and no descriptor opened. -/
def SameObjects (w w' : World) : Prop := w'.pins = w.pins ∧ w'.fds = w.fds

instance : CallFrame SameObjects where
  refl _ := ⟨rfl, rfl⟩
  trans _ _ _ h h' := ⟨h'.1.trans h.1, h'.2.trans h.2⟩
  calls _ _ := ⟨rfl, rfl⟩

def SamePins (w w' : World) : Prop := w'.pins = w.pins

instance : FdFrame SamePins where
  refl _ := rfl
  trans _ _ _ h h' := Eq.trans h' h
  calls _ _ := rfl
  fds _ _ _ h := h

/-- The stream is as good as it was. -/
def SameStream (w w' : World) : Prop := w'.failbit = w.failbit

instance : FdFrame SameStream where
  refl _ := rfl
  trans _ _ _ h h' := Eq.trans h' h
  calls _ _ := rfl
  fds _ _ _ h := h

section Calls
variable {platform : Platform} {α : Type} {call : Syscall} {effect : World → Except Errno (α × World)} {w w' : World}
  {path : Path} {fd : Int} {object : Object} {mode uid gid : UInt32}

theorem exists_run_syscall (w : World) : ∃ result w', (syscall platform call effect).run w = .ok result w' := by
  rw [run_syscall]
  dsimp only
  split
  · exact ⟨_, _, rfl⟩
  · split
    · exact ⟨_, _, rfl⟩
    · exact ⟨_, _, rfl⟩

section Frame
variable {R : World → World → Prop} [CallFrame R]

theorem within_syscall (heffect : ∀ w w₁ a w', R w w₁ → effect w₁ = .ok (a, w') → R w w') :
    Within R (syscall platform call effect) := by
  intro w
  have hcalls : R w { w with calls := w.calls ++ [call] } := CallFrame.calls w _
  obtain ⟨result, w', hrun⟩ : ∃ result w', (syscall platform call effect).run w = .ok result w' := exists_run_syscall w
  rw [hrun]
  rcases syscall_cases hrun with ⟨err, -, rfl⟩ | ⟨a, -, heq⟩
  · exact hcalls
  · exact heffect w _ a w' hcalls heq

theorem within_syscall_of_same (heffect : ∀ w a w', effect w = .ok (a, w') → w' = w) :
    Within R (syscall platform call effect) :=
  within_syscall fun _ w₁ a w' h heq => heffect w₁ a w' heq ▸ h

theorem within_access : Within R (access platform path) :=
  within_syscall_of_same fun w a w' h => by
    split at h
    · exact (Prod.mk.inj (Except.ok.inj h)).2.symm
    · cases h

theorem within_bpfGetFdMap {field : MapField} : Within R (bpfGetFdMap platform fd field) := by
  refine Within.bind (within_syscall_of_same fun w a w' h => ?_) fun _ => Within.pure _
  split at h
  · exact (Prod.mk.inj (Except.ok.inj h)).2.symm
  · cases h

theorem within_bpfGetFdId : Within R (bpfGetFdId platform fd) :=
  Within.bind (within_syscall_of_same fun _ _ _ h => (Prod.mk.inj (Except.ok.inj h)).2.symm) fun _ => Within.pure _

theorem within_mapMatchesExpectations {mapDef : BpfMapDef} {type : UInt32} :
    Within R (mapMatchesExpectations platform fd mapDef type) :=
  Within.bind within_bpfGetFdMap fun _ => Within.bind within_bpfGetFdMap fun _ =>
    Within.bind within_bpfGetFdMap fun _ => Within.bind within_bpfGetFdMap fun _ =>
      Within.bind within_bpfGetFdMap fun _ => Within.pure _

end Frame

section Open
variable {R : World → World → Prop} [FdFrame R]

theorem within_bpfFdGet : Within R (bpfFdGet platform path) :=
  within_syscall fun w w₁ a w' h heq => by
    split at heq
    · cases heq
      exact FdFrame.fds w w₁ _ h
    · cases heq

theorem within_bpfMapCreate {attr : MapAttr} {mapName : List UInt8} :
    Within R (bpfMapCreate platform attr mapName) :=
  within_syscall fun w w₁ a w' h heq => by
    cases heq
    exact FdFrame.fds w w₁ _ h

end Open

theorem sameStream_bpfFdPin : Within SameStream (bpfFdPin platform fd path) :=
  within_syscall fun w w₁ a w' h heq => by
    split at heq
    · cases heq
    · cases heq
    · cases heq
      exact h

theorem sameStream_chmod : Within SameStream (chmod platform path mode) :=
  within_syscall fun w w₁ a w' h heq => by
    split at heq
    · cases heq
    · cases heq
      exact h

theorem sameStream_chown : Within SameStream (chown platform path uid gid) :=
  within_syscall fun w w₁ a w' h heq => by
    split at heq
    · cases heq
    · cases heq
      exact h

theorem sameStream_pinNew : Within SameStream (pinNew platform fd path mode uid gid) :=
  Within.bind sameStream_bpfFdPin fun _ => Within.bind within_orFail fun _ =>
    Within.bind sameStream_chmod fun _ => Within.bind within_orFail fun _ =>
      Within.bind sameStream_chown fun _ => within_orFail

theorem lookup_of_bpfMapCreate {attr : MapAttr} {mapName : List UInt8}
    (h : (bpfMapCreate platform attr mapName).run w = .ok (.ok fd) w') :
    w'.fds.lookup fd = some (.map attr.created) := by
  rcases syscall_cases h with ⟨err, hresult, -⟩ | ⟨a, hresult, heffect⟩
  · cases hresult
  · cases hresult
    cases heffect
    exact List.lookup_cons_self

/-! ### Pins -/

/-- At most one new pin, of such a node, at this path. -/
def PinsStep (path : Path) (φ : Node → Prop) (pins pins' : Path → Option Node) : Prop :=
  pins' = pins ∨ (pins path = none ∧ ∃ node, φ node ∧ pins' = Function.update pins path (some node))

variable {φ : Node → Prop}

theorem pinsStep_bind {β : Type} {x : Prog α} {f : α → Prog β} (hx : Within SamePins x)
    (hf : ∀ a w₁, x.run w = .ok a w₁ → PinsStep path φ w₁.pins (after ((f a).run w₁)).pins) :
    PinsStep path φ w.pins (after ((x >>= f).run w)).pins := by
  cases hrun : x.run w with
  | error stop w₁ =>
    rw [after_bind_of_error hrun]
    exact .inl (hx.of_error hrun)
  | ok a w₁ =>
    have hsame : w₁.pins = w.pins := hx.of_ok hrun
    rw [after_bind_of_ok hrun, ← hsame]
    exact hf a w₁ hrun

theorem pinsStep_bind_right {β : Type} {x : Prog α} {f : α → Prog β} (hx : PinsStep path φ w.pins (after (x.run w)).pins)
    (hf : ∀ a, Within SamePins (f a)) : PinsStep path φ w.pins (after ((x >>= f).run w)).pins := by
  cases hrun : x.run w with
  | error stop w₁ =>
    rw [hrun] at hx
    rwa [after_bind_of_error hrun]
  | ok a w₁ =>
    rw [hrun] at hx
    have hsame : (after ((f a).run w₁)).pins = w₁.pins := hf a w₁
    rwa [after_bind_of_ok hrun, hsame]

/-- The pin at the path is rewritten, and remains of its object. -/
def Rewrites (path : Path) (object : Object) (w w' : World) : Prop :=
  ∀ pins node, node.object = object → w.pins = Function.update pins path (some node) →
    ∃ node', node'.object = object ∧ w'.pins = Function.update pins path (some node')

instance : Std.Refl (Rewrites path object) := ⟨fun _ _ node hnode hpins => ⟨node, hnode, hpins⟩⟩

instance : IsTrans World (Rewrites path object) := by
  refine ⟨fun _ _ _ h h' pins node hnode hpins => ?_⟩
  obtain ⟨node', hnode', hpins'⟩ := h pins node hnode hpins
  exact h' pins node' hnode' hpins'

/-- The call fails, or changes the node that is pinned at the path. -/
def Changes (path : Path) (change : Node → Node) (result : Except Errno Unit) (w w' : World) : Prop :=
  (∃ err, result = .error err ∧ w'.pins = w.pins) ∨
    ∃ node, result = .ok () ∧ w.pins path = some node ∧ w'.pins = Function.update w.pins path (some (change node))

theorem chmod_changes {result : Except Errno Unit} (h : (chmod platform path mode).run w = .ok result w') :
    Changes path (fun node => { node with mode := mode &&& 0o7777 }) result w w' := by
  rcases syscall_cases h with ⟨err, rfl, rfl⟩ | ⟨_, rfl, heffect⟩
  · exact .inl ⟨err, rfl, rfl⟩
  · split at heffect
    · cases heffect
    · cases heffect
      exact .inr ⟨_, rfl, by assumption, rfl⟩

theorem chown_changes {result : Except Errno Unit} (h : (chown platform path uid gid).run w = .ok result w') :
    Changes path (fun node => { node with
      mode := chownMode node.mode
      uid := if uid = 0xFFFFFFFF then node.uid else uid
      gid := if gid = 0xFFFFFFFF then node.gid else gid }) result w w' := by
  rcases syscall_cases h with ⟨err, rfl, rfl⟩ | ⟨_, rfl, heffect⟩
  · exact .inl ⟨err, rfl, rfl⟩
  · split at heffect
    · cases heffect
    · cases heffect
      exact .inr ⟨_, rfl, by assumption, rfl⟩

theorem Changes.rewrites {change : Node → Node} {result : Except Errno Unit} (h : Changes path change result w w')
    (hchange : ∀ node, (change node).object = node.object) : Rewrites path object w w' := by
  intro pins node hnode hpins
  rcases h with ⟨err, -, hsame⟩ | ⟨node', -, hnode', hupdate⟩
  · exact ⟨node, hnode, hsame.trans hpins⟩
  · rw [hpins, Function.update_self] at hnode'
    cases hnode'
    exact ⟨change node, (hchange node).trans hnode, by rw [hupdate, hpins, Function.update_idem]⟩

theorem rewrites_chmod : Within (Rewrites path object) (chmod platform path mode) := by
  intro w
  obtain ⟨result, w', hrun⟩ : ∃ result w', (chmod platform path mode).run w = .ok result w' := exists_run_syscall w
  rw [hrun]
  exact (chmod_changes hrun).rewrites fun _ => rfl

theorem rewrites_chown : Within (Rewrites path object) (chown platform path uid gid) := by
  intro w
  obtain ⟨result, w', hrun⟩ : ∃ result w', (chown platform path uid gid).run w = .ok result w' := exists_run_syscall w
  rw [hrun]
  exact (chown_changes hrun).rewrites fun _ => rfl

theorem bpfFdPin_cases {result : Except Errno Unit} (hfd : w.fds.lookup fd = some object)
    (h : (bpfFdPin platform fd path).run w = .ok result w') :
    (∃ err, result = .error err ∧ w'.pins = w.pins) ∨ (result = .ok () ∧ w.pins path = none ∧
      w'.pins = Function.update w.pins path (some ⟨object, 0o600, 0, 0⟩)) := by
  rcases syscall_cases h with ⟨err, rfl, rfl⟩ | ⟨_, rfl, heffect⟩
  · exact .inl ⟨err, rfl, rfl⟩
  · simp only [hfd] at heffect
    split at heffect
    · cases heffect
    · cases heffect
    · rename_i hobject hnone
      cases hobject
      cases heffect
      exact .inr ⟨rfl, hnone, rfl⟩

/-- What `pinNew` does behind the pin. -/
def setModes (platform : Platform) (path : Path) (mode uid gid : UInt32) : Prog PUnit := do
  orFail (← chmod platform path mode)
  orFail (← chown platform path uid gid)

theorem rewrites_setModes : Within (Rewrites path object) (setModes platform path mode uid gid) :=
  Within.bind rewrites_chmod fun _ => Within.bind within_orFail fun _ =>
    Within.bind rewrites_chown fun _ => within_orFail

theorem pinsStep_pinNew (hfd : w.fds.lookup fd = some object) :
    PinsStep path (·.object = object) w.pins (after ((pinNew platform fd path mode uid gid).run w)).pins := by
  obtain ⟨result, w₁, hpin⟩ : ∃ result w', (bpfFdPin platform fd path).run w = .ok result w' := exists_run_syscall w
  rw [pinNew, after_bind_of_ok hpin]
  rcases bpfFdPin_cases hfd hpin with ⟨err, rfl, hsame⟩ | ⟨rfl, hnone, hpins⟩
  · exact .inl hsame
  · have hrewrites : Rewrites path object w₁ (after ((setModes platform path mode uid gid).run w₁)) :=
      rewrites_setModes w₁
    exact .inr ⟨hnone, hrewrites w.pins _ rfl hpins⟩

theorem run_chmod_of_pinned {node : Node} (hfails : platform.fails (w.calls ++ [.chmod path mode]) = none)
    (hnode : w.pins path = some node) : ∃ w', (chmod platform path mode).run w = .ok (.ok ()) w' ∧
      w'.pins = Function.update w.pins path (some { node with mode := mode &&& 0o7777 }) := by
  rw [chmod, run_syscall]
  simp only [hfails, hnode]
  exact ⟨_, rfl, rfl⟩

theorem run_chown_of_pinned {node : Node} (hfails : platform.fails (w.calls ++ [.chown path uid gid]) = none)
    (hnode : w.pins path = some node) : ∃ w', (chown platform path uid gid).run w = .ok (.ok ()) w' ∧
      w'.pins = Function.update w.pins path (some { node with
        mode := chownMode node.mode
        uid := if uid = 0xFFFFFFFF then node.uid else uid
        gid := if gid = 0xFFFFFFFF then node.gid else gid }) := by
  rw [chown, run_syscall]
  simp only [hfails, hnode]
  exact ⟨_, rfl, rfl⟩

/-- Where `chmod` and `chown` do not fail, a new pin is made as it is declared. -/
theorem pinsStep_pinNew_made (hmodes : ∀ calls, platform.fails (calls ++ [.chmod path mode]) = none)
    (howners : ∀ calls, platform.fails (calls ++ [.chown path uid gid]) = none) (hfd : w.fds.lookup fd = some object) :
    PinsStep path (· = madeNode object mode uid gid) w.pins
      (after ((pinNew platform fd path mode uid gid).run w)).pins := by
  obtain ⟨result, w₁, hpin⟩ : ∃ result w', (bpfFdPin platform fd path).run w = .ok result w' := exists_run_syscall w
  rw [pinNew, after_bind_of_ok hpin]
  rcases bpfFdPin_cases hfd hpin with ⟨err, rfl, hsame⟩ | ⟨rfl, hnone, hpins⟩
  · exact .inl hsame
  · refine .inr ⟨hnone, _, rfl, ?_⟩
    have hnode : w₁.pins path = some ⟨object, 0o600, 0, 0⟩ := by rw [hpins, Function.update_self]
    obtain ⟨w₂, hmode, hpins₂⟩ := run_chmod_of_pinned (hmodes w₁.calls) hnode
    have hnode₂ : w₂.pins path = some ⟨object, mode &&& 0o7777, 0, 0⟩ := by rw [hpins₂, Function.update_self]
    obtain ⟨w₃, howner, hpins₃⟩ := run_chown_of_pinned (howners w₂.calls) hnode₂
    have hrest : (setModes platform path mode uid gid).run w₁ = .ok ⟨⟩ w₃ :=
      bind_eq_ok.mpr ⟨_, w₂, hmode, bind_eq_ok.mpr ⟨⟨⟩, w₂, rfl, bind_eq_ok.mpr ⟨_, w₃, howner, rfl⟩⟩⟩
    have hafter : (after ((setModes platform path mode uid gid).run w₁)).pins =
        Function.update w.pins path (some (madeNode object mode uid gid)) := by
      rw [hrest, after_ok, hpins₃, hpins₂, hpins, Function.update_idem, Function.update_idem]
      rfl
    exact hafter

theorem pinNew_eq_ok {u : PUnit} (hfd : w.fds.lookup fd = some object)
    (h : (pinNew platform fd path mode uid gid).run w = .ok u w') :
    w.pins path = none ∧ w'.pins = Function.update w.pins path (some (madeNode object mode uid gid)) := by
  obtain ⟨pinned, w₁, hpin, h⟩ := bind_eq_ok.mp h
  obtain ⟨_, w₂, hok, h⟩ := bind_eq_ok.mp h
  obtain ⟨moded, w₃, hmode, h⟩ := bind_eq_ok.mp h
  obtain ⟨_, w₄, hok', h⟩ := bind_eq_ok.mp h
  obtain ⟨owned, w₅, hown, h⟩ := bind_eq_ok.mp h
  rcases bpfFdPin_cases hfd hpin with ⟨err, rfl, -⟩ | ⟨rfl, hnone, hpins⟩
  · cases hok
  obtain ⟨-, rfl⟩ := pure_eq_ok.mp hok
  rcases chmod_changes hmode with ⟨err, rfl, -⟩ | ⟨node, rfl, hnode, hpins'⟩
  · cases hok'
  obtain ⟨-, rfl⟩ := pure_eq_ok.mp hok'
  rcases chown_changes hown with ⟨err, rfl, -⟩ | ⟨node', rfl, hnode', hpins''⟩
  · cases h
  obtain ⟨-, rfl⟩ := pure_eq_ok.mp h
  rw [hpins, Function.update_self] at hnode
  cases hnode
  rw [hpins', Function.update_self] at hnode'
  cases hnode'
  exact ⟨hnone, by rw [hpins'', hpins', hpins, Function.update_idem, Function.update_idem]; rfl⟩

end Calls

/-! ### One map -/

section Map
variable {platform : Platform} {locationPrefix objName : List UInt8} {m : BpfMapDef × List UInt8} {w w' : World} {fd : Int}

theorem createMap_of_not_inRange (hzero : m.1.zero = 0) (h : m.1.inRange platform = false) :
    createMap platform locationPrefix objName m.1 m.2 = pure (-1) := by
  have hout : ¬(m.1.minKver ≤ platform.kernelVersion ∧ platform.kernelVersion < m.1.maxKver) := of_decide_eq_false h
  rw [createMap, if_neg (not_not_intro hzero)]
  by_cases hmin : platform.kernelVersion < m.1.minKver
  · rw [if_pos hmin]
  · rw [if_neg hmin, if_pos]
    exact UInt32.not_lt.mp fun hmax => hout ⟨UInt32.not_lt.mp hmin, hmax⟩

theorem createMap_skipped (hrange : m.1.inRange platform = false)
    (h : (createMap platform locationPrefix objName m.1 m.2).run w = .ok fd w') : fd = -1 ∧ w' = w := by
  by_cases hzero : m.1.zero = 0
  · rw [createMap_of_not_inRange hzero hrange] at h
    obtain ⟨hfd, hw⟩ := pure_eq_ok.mp h
    exact ⟨hfd.symm, hw.symm⟩
  · rw [createMap, if_pos hzero] at h
    cases h

/-- Whatever fails, a map leaves at most one new pin, of such a node as the pin of its object makes. -/
theorem pinsStep_createMap {φ : Node → Prop} (hpin : ∀ w fd, w.fds.lookup fd = some (.map (declaredAttr platform m.1)) →
      PinsStep (pathOf locationPrefix objName m) φ w.pins (after ((pinNew platform fd
        (pathOf locationPrefix objName m) m.1.mode m.1.uid m.1.gid).run w)).pins) (w : World) :
    w.pins = (after ((createMap platform locationPrefix objName m.1 m.2).run w)).pins ∨
      (m.1.inRange platform ∧ PinsStep (pathOf locationPrefix objName m) φ w.pins
        (after ((createMap platform locationPrefix objName m.1 m.2).run w)).pins) := by
  rw [createMap]
  split
  · exact .inl rfl
  split
  · exact .inl rfl
  split
  · exact .inl rfl
  rename_i hmin hmax
  refine .inr ⟨decide_eq_true ⟨UInt32.not_lt.mp hmin, UInt32.not_le.mp hmax⟩, ?_⟩
  refine pinsStep_bind within_access fun reuse w₁ _ => ?_
  cases reuse with
  | ok u =>
    refine pinsStep_bind within_bpfFdGet fun opened w₂ _ => pinsStep_bind within_orFail fun fd w₃ _ => ?_
    refine pinsStep_bind within_mapMatchesExpectations fun isMatch w₄ _ => ?_
    split
    · exact .inl rfl
    · exact pinsStep_bind within_bpfGetFdId fun _ _ _ => .inl rfl
  | error err =>
    refine pinsStep_bind within_bpfMapCreate fun opened w₂ hcreate => pinsStep_bind within_orFail fun fd w₃ hopened => ?_
    refine pinsStep_bind within_mapMatchesExpectations fun isMatch w₄ hmatch => ?_
    cases opened with
    | error err => cases hopened
    | ok fd =>
      obtain ⟨rfl, rfl⟩ := pure_eq_ok.mp hopened
      have hfds : w₄.fds = w₂.fds := (Within.of_ok (R := SameObjects) within_mapMatchesExpectations hmatch).2
      have hlookup : w₄.fds.lookup fd = some (.map (declaredAttr platform m.1)) := hfds ▸ lookup_of_bpfMapCreate hcreate
      split
      · exact .inl rfl
      · exact pinsStep_bind_right (hpin _ _ hlookup) fun _ =>
          Within.bind within_bpfGetFdId fun _ => Within.pure _

/-- A map that is in range is there when it was, and else it is made as it is declared. -/
theorem createMap_eq_ok (hrange : m.1.inRange platform = true)
    (h : (createMap platform locationPrefix objName m.1 m.2).run w = .ok fd w') :
    ((w.pins (pathOf locationPrefix objName m)).isSome ∧ w'.pins = w.pins) ∨
      (w.pins (pathOf locationPrefix objName m) = none ∧ w'.pins = Function.update w.pins (pathOf locationPrefix objName m)
        (some (madeNode (.map (declaredAttr platform m.1)) m.1.mode m.1.uid m.1.gid))) := by
  obtain ⟨hmin, hmax⟩ := of_decide_eq_true hrange
  rw [createMap] at h
  split at h
  · cases h
  rw [if_neg (UInt32.not_lt.mpr hmin), if_neg (UInt32.not_le.mpr hmax)] at h
  obtain ⟨reuse, w₁, haccess, h⟩ := bind_eq_ok.mp h
  have hpins₁ : w₁.pins = w.pins := Within.of_ok (R := SamePins) within_access haccess
  cases reuse with
  | ok u =>
    obtain ⟨opened, w₂, hget, h⟩ := bind_eq_ok.mp h
    obtain ⟨fd', w₃, hopened, h⟩ := bind_eq_ok.mp h
    obtain ⟨isMatch, w₄, hmatch, h⟩ := bind_eq_ok.mp h
    split at h
    · cases h
    · obtain ⟨_, w₅, hid, h⟩ := bind_eq_ok.mp h
      obtain ⟨-, rfl⟩ := pure_eq_ok.mp h
      have hpins₂ : w₂.pins = w₁.pins := Within.of_ok (R := SamePins) within_bpfFdGet hget
      have hpins₃ : w₃.pins = w₂.pins := Within.of_ok (R := SamePins) within_orFail hopened
      have hpins₄ : w₄.pins = w₃.pins := Within.of_ok (R := SamePins) within_mapMatchesExpectations hmatch
      have hpins₅ : w₅.pins = w₄.pins := Within.of_ok (R := SamePins) within_bpfGetFdId hid
      exact .inl ⟨access_ok haccess, by rw [hpins₅, hpins₄, hpins₃, hpins₂, hpins₁]⟩
  | error err =>
    obtain ⟨opened, w₂, hcreate, hopen⟩ := bind_eq_ok.mp h
    obtain ⟨fd', w₃, hopened, hopen⟩ := bind_eq_ok.mp hopen
    obtain ⟨isMatch, w₄, hmatch, hrest⟩ := bind_eq_ok.mp hopen
    cases opened with
    | error err => cases hopened
    | ok fd =>
      obtain ⟨rfl, rfl⟩ := pure_eq_ok.mp hopened
      obtain ⟨hpins₄, hfds⟩ := Within.of_ok (R := SameObjects) within_mapMatchesExpectations hmatch
      have hlookup : w₄.fds.lookup fd = some (.map (declaredAttr platform m.1)) := hfds ▸ lookup_of_bpfMapCreate hcreate
      have hpins₂ : w₂.pins = w₁.pins := Within.of_ok (R := SamePins) within_bpfMapCreate hcreate
      split at hrest
      · cases hrest
      · obtain ⟨_, w₅, hpin, hrest⟩ := bind_eq_ok.mp hrest
        obtain ⟨_, w₆, hid, hrest⟩ := bind_eq_ok.mp hrest
        obtain ⟨-, rfl⟩ := pure_eq_ok.mp hrest
        have hpins₆ : w₆.pins = w₅.pins := Within.of_ok (R := SamePins) within_bpfGetFdId hid
        have hsame : w₄.pins = w.pins := hpins₄.trans (hpins₂.trans hpins₁)
        obtain ⟨hnone, hmade⟩ := pinNew_eq_ok hlookup hpin
        rw [hsame] at hnone hmade
        exact .inr ⟨hnone, hpins₆.trans hmade⟩

theorem sameStream_createMap {mapDef : BpfMapDef} {mapName : List UInt8} :
    Within SameStream (createMap platform locationPrefix objName mapDef mapName) :=
  within_createMap (fun _ => within_access) (fun _ => within_bpfFdGet) (fun _ _ => within_bpfMapCreate)
    (fun _ _ => within_bpfGetFdMap) (fun _ => within_bpfGetFdId) (fun _ _ _ _ _ => sameStream_pinNew) _ _ _ _

end Map

/-! ### Reading the maps -/

section Reading
variable {platform : Platform} {elfFile name : List UInt8} {w w' : World}

/-- A program that does not fail with -2, which stands for a section that is missing. -/
def NeverMissing {α : Type} (x : Prog α) : Prop := ∀ w w', x.run w ≠ .error (.ret minusTwo) w'

theorem NeverMissing.bind {α β : Type} {x : Prog α} {f : α → Prog β} (hx : NeverMissing x)
    (hf : ∀ a, NeverMissing (f a)) : NeverMissing (x >>= f) := by
  intro w w' h
  rcases bind_eq_error.mp h with h | ⟨a, u, -, h⟩
  · exact hx _ _ h
  · exact hf a _ _ h

theorem NeverMissing.pure {α : Type} (a : α) : NeverMissing (pure a : Prog α) := fun _ _ h => by cases h

theorem neverMissing_readAt {offset size : Nat} {readError : Ret} (hne : readError ≠ minusTwo) :
    NeverMissing (readAt elfFile offset size readError) := by
  intro w w' h
  rw [readAt, run_get_bind] at h
  split at h
  · cases h
  · split at h
    · cases h
    · cases h
      exact hne rfl

theorem neverMissing_readElfHeader : NeverMissing (readElfHeader elfFile) :=
  (neverMissing_readAt (by decide)).bind fun _ => .pure _

theorem neverMissing_readSectionHeadersAll : NeverMissing (readSectionHeadersAll elfFile) := by
  refine neverMissing_readElfHeader.bind fun eh => ?_
  split
  · exact fun _ _ h => by cases h
  · exact (neverMissing_readAt (by decide)).bind fun _ => .pure _

theorem neverMissing_readSection {sh : Elf64Shdr} : NeverMissing (readSection platform elfFile sh) := by
  unfold readSection
  split
  · exact fun _ _ h => by cases h
  · exact neverMissing_readAt (by decide)

theorem neverMissing_elementAt {α : Type} {xs : List α} {i : Nat} {beyond : Nat → α} :
    NeverMissing (elementAt xs i beyond) := by
  unfold elementAt
  cases xs[i]? with
  | some x => exact .pure x
  | none => exact fun _ _ h => by cases h

theorem neverMissing_readSectionHeaderStrtab : NeverMissing (readSectionHeaderStrtab platform elfFile) :=
  neverMissing_readElfHeader.bind fun _ => neverMissing_readSectionHeadersAll.bind fun _ =>
    neverMissing_elementAt.bind fun _ => neverMissing_readSection

theorem readSectionByName_eq_missing (hnamed : Named elfFile)
    (h : (readSectionByName platform elfFile name).run w = .error (.ret minusTwo) w') :
    ((headersOf elfFile).find? fun sh => nameAt elfFile sh.shName = some name) = none := by
  rcases bind_eq_error.mp h with h | ⟨shTable, w₁, htable, h⟩
  · exact absurd h (neverMissing_readSectionHeadersAll _ _)
  rcases bind_eq_error.mp h with h | ⟨secStrTab, w₂, htab, h⟩
  · exact absurd h (neverMissing_readSectionHeaderStrtab _ _)
  obtain rfl := readSectionHeadersAll_eq_ok htable
  obtain rfl := readSectionHeaderStrtab_eq_ok hnamed htab
  rw [findSection_eq hnamed.names] at h
  cases hfind : (headersOf elfFile).find? fun sh => nameAt elfFile sh.shName = some name with
  | none => rfl
  | some sh =>
    rw [hfind] at h
    exact absurd h (neverMissing_readSection _ _)

end Reading

/-! ### The loop -/

section Loop
variable {platform : Platform} {elfFile elfPath locationPrefix objName : List UInt8} {w : World}

theorem createMapsFrom_eq_mapM {md : List BpfMapDef} : ∀ {names : List (List UInt8)} {i : Nat},
    i + names.length ≤ md.length → createMapsFrom platform locationPrefix objName md i names =
      ((md.drop i).zip names).mapM fun m => createMap platform locationPrefix objName m.1 m.2
  | [], i, _ => by rw [createMapsFrom, List.zip_nil_right, List.mapM_nil]
  | name :: names, i, h => by
    rw [List.length_cons] at h
    have hi : i < md.length := by omega
    rw [createMapsFrom, elementAt, List.getElem?_eq_getElem hi, List.drop_eq_getElem_cons hi, List.zip_cons_cons,
      List.mapM_cons, createMapsFrom_eq_mapM (by omega)]
    rfl

theorem sameStream_elementAt {α : Type} {xs : List α} {i : Nat} {beyond : Nat → α} :
    Within SameStream (elementAt xs i beyond) := by
  unfold elementAt
  cases xs[i]? with
  | some x => exact Within.pure x
  | none => exact fun _ => rfl

/-- A descriptor is stored for each name, and -1 for a map that is skipped. -/
theorem createMapsFrom_eq_ok {md : List BpfMapDef} : ∀ {names : List (List UInt8)} {i : Nat} {fds : List Int} {w w' : World},
    (createMapsFrom platform locationPrefix objName md i names).run w = .ok fds w' →
    w'.failbit = w.failbit ∧ names.length = fds.length ∧ ∀ j < names.length, ∀ mapDef, md[i + j]? = some mapDef →
      mapDef.inRange platform = false → fds[j]? = some (-1)
  | [], _, _, _, _, h => by
    obtain ⟨rfl, rfl⟩ := pure_eq_ok.mp h
    exact ⟨rfl, rfl, fun j hj => absurd hj (Nat.not_lt_zero j)⟩
  | name :: names, i, _, w, w', h => by
    obtain ⟨mapDef, w₁, hmapDef, h⟩ := bind_eq_ok.mp h
    obtain ⟨fd, w₂, hfd, h⟩ := bind_eq_ok.mp h
    obtain ⟨fds, w₃, hfds, h⟩ := bind_eq_ok.mp h
    obtain ⟨rfl, rfl⟩ := pure_eq_ok.mp h
    obtain ⟨hstream, hlength, hskipped⟩ := createMapsFrom_eq_ok hfds
    have hstream₁ : w₁.failbit = w.failbit := Within.of_ok (R := SameStream) sameStream_elementAt hmapDef
    have hstream₂ : w₂.failbit = w₁.failbit := Within.of_ok (R := SameStream) sameStream_createMap hfd
    refine ⟨hstream.trans (hstream₂.trans hstream₁), congrArg (· + 1) hlength, fun j hj mapDef' hsome hrange => ?_⟩
    cases j with
    | zero =>
      obtain rfl := elementAt_eq_ok hsome hmapDef
      obtain ⟨rfl, -⟩ := createMap_skipped (m := (mapDef, name)) hrange hfd
      rfl
    | succ j =>
      exact hskipped j (Nat.lt_of_succ_lt_succ hj) mapDef' (by rw [Nat.add_right_comm]; exact hsome) hrange

/-- A run makes no call, and succeeds only without a section of maps; or it is the loop over the names. -/
def MapsRun (platform : Platform) (elfFile elfPath locationPrefix : List UInt8) (w : World)
    (run : EStateM.Result Stop World (List Int)) : Prop :=
  (SameKernel w (after run) ∧ ∀ fds w', run = .ok fds w' → fds = [] ∧ mapDefsOf elfFile = none) ∨
    ∃ md names w₁ w₂, SameKernel w w₂ ∧ mapDefsOf elfFile = some md ∧
      (getSectionSymNames platform elfFile (Text.utf8 "maps") none).run w₁ = .ok (names, none) w₂ ∧
      run = (createMapsFrom platform locationPrefix (pathToObjName elfPath) md 0 names).run w₂

theorem MapsRun.of_error {stop : Stop} {w' : World} (h : SameKernel w w') :
    MapsRun platform elfFile elfPath locationPrefix w (.error stop w') :=
  .inl ⟨h, fun _ _ heq => by cases heq⟩

theorem mapsRun_createMaps (hnamed : Named elfFile) (w : World) :
    MapsRun platform elfFile elfPath locationPrefix w ((createMaps platform elfFile elfPath locationPrefix).run w) := by
  have hread : Reads (tried (readSectionByName platform elfFile (Text.utf8 "maps"))) :=
    within_tried (reads_readSectionByName _)
  rw [createMaps, EStateM.run_bind]
  cases htried : (tried (readSectionByName platform elfFile (Text.utf8 "maps"))).run w with
  | error stop w₁ => exact .of_error (hread.of_error htried)
  | ok read w₁ =>
    have hsame : SameKernel w w₁ := hread.of_ok htried
    rcases tried_eq_ok.mp htried with ⟨mdData, rfl, hdata⟩ | ⟨ret, rfl, herror⟩
    · obtain ⟨sh, hsh, rfl⟩ := readSectionByName_eq_ok hnamed hdata
      dsimp only
      by_cases hwhole : (dataOf elfFile sh).length % 120 = 0
      · rw [if_neg (not_not_intro hwhole), EStateM.run_bind]
        have hmd : mapDefsOf elfFile =
            some (decodeArray BpfMapDef.decode 120 ((dataOf elfFile sh).length / 120) (dataOf elfFile sh)) := by
          rw [mapDefsOf, hsh, Option.bind_some, if_pos hwhole]
        have hnames : Reads (getSectionSymNames platform elfFile (Text.utf8 "maps") none) := reads_getSectionSymNames _ _
        cases hsyms : (getSectionSymNames platform elfFile (Text.utf8 "maps") none).run w₁ with
        | error stop w₂ => exact .of_error (trans_of SameKernel hsame (hnames.of_error hsyms))
        | ok result w₂ =>
          have hsame' : SameKernel w w₂ := trans_of SameKernel hsame (hnames.of_ok hsyms)
          obtain ⟨names, ret⟩ := result
          cases ret with
          | some ret => exact .of_error hsame'
          | none => exact .inr ⟨_, names, w₁, w₂, hsame', hmd, hsyms, rfl⟩
      · rw [if_pos hwhole]
        exact .of_error hsame
    · dsimp only
      by_cases hmissing : ret.val = -2
      · rw [if_pos hmissing]
        obtain rfl : ret = minusTwo := Subtype.ext hmissing
        refine .inl ⟨hsame, fun fds w' heq => ?_⟩
        obtain ⟨rfl, -⟩ := pure_eq_ok.mp heq
        rw [mapDefsOf, readSectionByName_eq_missing hnamed herror]
        exact ⟨rfl, rfl⟩
      · rw [if_neg hmissing]
        exact .of_error hsame

/-- With a definition for each name, the loop is one over the maps of the object. -/
theorem mapsRun_mapM (hnamed : Named elfFile) (hmapsNamed : MapsNamed elfFile)
    (hcount : ∀ md ∈ mapDefsOf elfFile, (symbolNames elfFile platform (Text.utf8 "maps") none).length ≤ md.length)
    (w : World) :
    (SameKernel w (after ((createMaps platform elfFile elfPath locationPrefix).run w)) ∧
      ∀ fds w', (createMaps platform elfFile elfPath locationPrefix).run w = .ok fds w' → mapsOf platform elfFile = []) ∨
    ∃ w₁, SameKernel w w₁ ∧ (createMaps platform elfFile elfPath locationPrefix).run w =
      ((mapsOf platform elfFile).mapM fun m =>
        createMap platform locationPrefix (pathToObjName elfPath) m.1 m.2).run w₁ := by
  have hcases : MapsRun platform elfFile elfPath locationPrefix w _ := mapsRun_createMaps hnamed w
  rcases hcases with ⟨hsame, hnone⟩ | ⟨md, names, w₁, w₂, hsame, hmd, hnames, hrun⟩
  · refine .inl ⟨hsame, fun fds w' h => ?_⟩
    rw [mapsOf, (hnone fds w' h).2]
    rfl
  · obtain rfl := symbolNames_of_ok hnamed hmapsNamed hnames
    refine .inr ⟨w₂, hsame, ?_⟩
    rw [hrun, createMapsFrom_eq_mapM (by rw [Nat.zero_add]; exact hcount md hmd), List.drop_zero, mapsOf, hmd]
    rfl

end Loop

/-! ### An object with one map -/

/-- A hash map `m` for every kernel, of owner 1000 and mode 0660. -/
def hashMapDef : BpfMapDef := ⟨bpfMapTypeHash, 4, 8, 16, 0, 0, 1000, 0o660, 0, 0xFFFFFFFF, false, 1000⟩

def mapObject : List UInt8 :=
  let strings := [".strtab", "maps", ".symtab", "m"]
  image strings [
    ⟨"maps", 1, hashMapDef.encode⟩,
    ⟨".symtab", shtSymtab, Elf64Sym.encode ⟨nameOffset strings "m", 1, 1, 0⟩⟩]

instance (elfFile : List UInt8) : Decidable (MapsNamed elfFile) := inferInstanceAs (Decidable (∀ sym ∈ _, _))

theorem named_mapObject : Named mapObject := by decide +kernel

theorem mapsNamed_mapObject : MapsNamed mapObject := by decide +kernel

end UprobeStats.BpfLoad
