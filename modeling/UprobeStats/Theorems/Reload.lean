import UprobeStats.Theorems.Repeats
import UprobeStats.Theorems.HalfRelocation

/-! Loading what is loaded. A second run of the loader, in a kernel that has kept what the first has pinned, finds each
    map and each program at its path, opens it, and leaves everything as it is. -/

namespace UprobeStats.BpfLoad
open Effect

/-! ### Going on -/

/-- What is pinned stays pinned as it is. -/
def Keeps (w w' : World) : Prop := ∀ path, (w.pins path).isSome → w'.pins path = w.pins path

theorem Keeps.trans {u v w : World} (huv : Keeps u v) (hvw : Keeps v w) : Keeps u w := by
  intro path hpath
  have hsame : v.pins path = u.pins path := huv path hpath
  exact (hvw path (by rw [hsame]; exact hpath)).trans hsame

theorem Adds.keeps {φ : Path → Node → Prop} {w w' : World} (h : Adds φ w w') : Keeps w w' := by
  intro path hpath
  rcases h path with hsame | ⟨hnone, -⟩
  · exact hsame
  · rw [hnone] at hpath
    cases hpath

/-- No stray read is undone, no call and no pin. -/
structure Proceeds (w w' : World) : Prop where
  strays : w.strays ≤ w'.strays
  calls : w.calls <+: w'.calls
  pins : Keeps w w'

instance : LoadFrame Proceeds where
  refl _ := ⟨Nat.le_refl _, List.prefix_refl _, fun _ _ => rfl⟩
  trans _ _ _ h h' := ⟨Nat.le_trans h.strays h'.strays, h.calls.trans h'.calls, h.pins.trans h'.pins⟩
  failbit _ := ⟨Nat.le_refl _, List.prefix_refl _, fun _ _ => rfl⟩
  stray _ := ⟨Nat.le_succ _, List.prefix_refl _, fun _ _ => rfl⟩
  critical _ _ := ⟨Nat.le_refl _, List.prefix_refl _, fun _ _ => rfl⟩
  stream _ _ _ := ⟨Nat.le_refl _, List.prefix_refl _, fun _ _ => rfl⟩

/-- A relation that says nothing of pins. -/
class PinFrame (R : World → World → Prop) : Prop extends FdFrame R where
  pins : ∀ w w' pins, R w w' → R w { w' with pins }

instance : PinFrame StraysLe where
  calls _ _ := Nat.le_refl _
  fds _ _ _ h := h
  pins _ _ _ h := h

/-- Whether the object is critical stays as it is. -/
def SameCritical (w w' : World) : Prop := w'.isCritical = w.isCritical

instance : PinFrame SameCritical where
  refl _ := rfl
  trans _ _ _ h h' := Eq.trans h' h
  calls _ _ := rfl
  fds _ _ _ h := h
  pins _ _ _ h := h

instance : PinFrame SameStream where
  pins _ _ _ h := h

section Frame
variable {platform : Platform} {R : World → World → Prop} [PinFrame R] {path : Path} {fd : Int} {mode uid gid : UInt32}

theorem within_bpfFdPin : Within R (bpfFdPin platform fd path) :=
  within_syscall fun w w₁ a w' h heq => by
    split at heq
    · cases heq
    · cases heq
    · cases heq
      exact PinFrame.pins w w₁ _ h

theorem within_chmod : Within R (chmod platform path mode) :=
  within_syscall fun w w₁ a w' h heq => by
    split at heq
    · cases heq
    · cases heq
      exact PinFrame.pins w w₁ _ h

theorem within_chown : Within R (chown platform path uid gid) :=
  within_syscall fun w w₁ a w' h heq => by
    split at heq
    · cases heq
    · cases heq
      exact PinFrame.pins w w₁ _ h

theorem within_pinNew : Within R (pinNew platform fd path mode uid gid) :=
  Within.bind within_bpfFdPin fun _ => Within.bind within_orFail fun _ =>
    Within.bind within_chmod fun _ => Within.bind within_orFail fun _ =>
      Within.bind within_chown fun _ => within_orFail

variable {locationPrefix objName license : List UInt8}

theorem frame_createMap {mapDef : BpfMapDef} {mapName : List UInt8} :
    Within R (createMap platform locationPrefix objName mapDef mapName) :=
  within_createMap (fun _ => within_access) (fun _ => within_bpfFdGet) (fun _ _ => within_bpfMapCreate)
    (fun _ _ => within_bpfGetFdMap) (fun _ => within_bpfGetFdId) (fun _ _ _ _ _ => within_pinNew) _ _ _ _

theorem frame_loadCodeSection {cs : CodeSection} :
    Within R (loadCodeSection platform objName license locationPrefix cs) := by
  unfold loadCodeSection
  cases cs.progDef with
  | none => exact Within.throw _
  | some progDef =>
    dsimp only
    split
    · exact Within.pure _
    refine Within.bind within_access fun reuse => ?_
    cases reuse with
    | ok u =>
      refine Within.bind within_bpfFdGet fun opened => ?_
      cases opened with
      | error err => exact Within.throw _
      | ok fd => exact Within.bind within_bpfGetFdId fun _ => Within.pure _
    | error err =>
      refine Within.bind within_bpfProgLoad fun opened => ?_
      cases opened with
      | error err =>
        dsimp only
        split
        · exact Within.pure _
        · exact Within.throw _
      | ok fd => exact Within.bind within_pinNew fun _ => Within.bind within_bpfGetFdId fun _ => Within.pure _

end Frame

section Proceeds
variable {platform : Platform} {locationPrefix objName license : List UInt8} {w w' : World}

theorem Grows.calls_le {φ : Syscall → Prop} (h : Grows φ w w') : w.calls <+: w'.calls := by
  obtain ⟨⟨calls, hcalls, -⟩, -⟩ := h
  exact ⟨calls, hcalls.symm⟩

theorem ReadsOnly.proceeds (h : ReadsOnly w w') : Proceeds w w' := by
  obtain ⟨failbit, strays, rfl, hle⟩ := h
  exact ⟨hle, List.prefix_refl _, fun _ _ => rfl⟩

theorem proceeds_createMap (mapDef : BpfMapDef) (mapName : List UInt8) :
    Within Proceeds (createMap platform locationPrefix objName mapDef mapName) := by
  intro w
  have hstrays : StraysLe w (after ((createMap platform locationPrefix objName mapDef mapName).run w)) := frame_createMap w
  have hgrows : Within (Grows fun _ => True) (createMap platform locationPrefix objName mapDef mapName) :=
    grows_createMap (fun _ _ => trivial) _ _ _ _
  have hadds : Within (Adds fun _ _ => True) (createMap platform locationPrefix objName mapDef mapName) :=
    adds_createMap fun _ _ _ => trivial
  exact ⟨hstrays, (hgrows w).calls_le, (hadds w).keeps⟩

theorem proceeds_loadCodeSection (cs : CodeSection) :
    Within Proceeds (loadCodeSection platform objName license locationPrefix cs) := by
  intro w
  have hstrays : StraysLe w (after ((loadCodeSection platform objName license locationPrefix cs).run w)) :=
    frame_loadCodeSection w
  have hadds : Within (Adds fun _ _ => True) (loadCodeSection platform objName license locationPrefix cs) :=
    adds_loadCodeSection fun _ _ _ _ => trivial
  have hgrows : Within (Grows fun _ => True) (loadCodeSection platform objName license locationPrefix cs) :=
    grows_loadCodeSection (fun _ _ => trivial) trivial
  exact ⟨hstrays, (hgrows w).calls_le, (hadds w).keeps⟩

theorem proceeds_loadProg {location : Location} (elfPath : List UInt8) (elfFile : Option (List UInt8)) :
    Within Proceeds (loadProg platform elfPath elfFile location) :=
  within_loadProg proceeds_createMap (fun _ cs _ => proceeds_loadCodeSection cs) elfFile

end Proceeds

/-! ### Two loads -/

/-- A call that only looks, or opens what is there. -/
def Syscall.opens : Syscall → Bool
  | .access _ => true
  | .objGet _ => true
  | .mapInfo _ _ => true
  | .idInfo _ => true
  | _ => false

/-- A call whose failure a load may pass over: it takes -1 for a field of a map, and does without an optional program. -/
def Syscall.isExcused : Syscall → Bool
  | .mapInfo _ _ => true
  | .progLoad _ => true
  | _ => false

section Two
variable (platform : Platform)

/-- No call that would be excused has failed since. -/
def Unexcused (w w' : World) : Prop :=
  ∀ calls call, w.calls <+: calls → calls ++ [call] <+: w'.calls → call.isExcused = true →
    platform.fails (calls ++ [call]) = none

/-- No call that only opens fails from here on. -/
def Quiet (calls : List Syscall) : Prop :=
  ∀ calls' call, calls <+: calls' → call.opens = true → platform.fails (calls' ++ [call]) = none

/-- The second state is only further on in what it has opened. -/
def Reopens (u u' : World) : Prop :=
  u'.pins = u.pins ∧ ∃ calls, u'.calls = u.calls ++ calls ∧ ∀ call ∈ calls, call.opens = true

/-- The streams are as good, and the objects as critical. -/
def Alike (w u : World) : Prop := w.failbit = u.failbit ∧ w.isCritical = u.isCritical

/-- Where the first program goes through and excuses nothing, the second one, in a kernel that has what the first has
    pinned, goes through too and only opens. -/
def Reruns {α β : Type} (Q : α → β → Prop) (x : Prog α) (y : Prog β) : Prop :=
  Within Proceeds x ∧ ∀ w a w' u, x.run w = .ok a w' → w'.strays = w.strays → Unexcused platform w w' → Alike w u →
    Keeps w' u → Quiet platform u.calls → ∃ b u', y.run u = .ok b u' ∧ Q a b ∧ Alike w' u' ∧ Reopens u u'

end Two

instance : Std.Refl Reopens := ⟨fun u => ⟨rfl, [], by simp⟩⟩

instance : IsTrans World Reopens := by
  refine ⟨fun u v w ⟨hpins, calls, hcalls, hopens⟩ ⟨hpins', calls', hcalls', hopens'⟩ =>
    ⟨hpins'.trans hpins, calls ++ calls', ?_, ?_⟩⟩
  · rw [hcalls', hcalls, List.append_assoc]
  · exact fun call hcall => (List.mem_append.mp hcall).elim (hopens call) (hopens' call)

section Reruns
variable {platform : Platform} {α β γ δ : Type} {Q : α → β → Prop} {Q' : γ → δ → Prop} {x : Prog α} {y : Prog β}
  {u u' v w w' : World}

theorem Unexcused.mono (h : Unexcused platform u w) (hu : u.calls <+: v.calls) (hw : w'.calls <+: w.calls) :
    Unexcused platform v w' :=
  fun calls call hv hcalls => h calls call (hu.trans hv) (hcalls.trans hw)

theorem Reopens.quiet (h : Reopens u u') (hquiet : Quiet platform u.calls) : Quiet platform u'.calls := by
  obtain ⟨-, calls, hcalls, -⟩ := h
  exact fun calls' call hcalls' => hquiet calls' call (List.IsPrefix.trans ⟨calls, hcalls.symm⟩ hcalls')

theorem Reopens.keeps (h : Reopens u u') (hkeeps : Keeps w u) : Keeps w u' := by
  intro path hpath
  rw [h.1]
  exact hkeeps path hpath

theorem Reruns.pure {a : α} {b : β} (h : Q a b) : Reruns platform Q (pure a) (pure b) := by
  refine ⟨Within.pure a, fun w a' w' u hrun _ _ halike _ _ => ?_⟩
  obtain ⟨rfl, rfl⟩ := pure_eq_ok.mp hrun
  exact ⟨b, u, rfl, h, halike, refl_of Reopens u⟩

theorem Reruns.throw {stop : Stop} : Reruns platform Q (throw stop) y :=
  ⟨Within.throw stop, fun _ _ _ _ hrun => by cases hrun⟩

theorem Reruns.bind {f : α → Prog γ} {g : β → Prog δ} (hx : Reruns platform Q x y)
    (hle : ∀ a, Within Proceeds (f a)) (hf : ∀ a b, Q a b → Reruns platform Q' (f a) (g b)) :
    Reruns platform Q' (x >>= f) (y >>= g) := by
  refine ⟨hx.1.bind hle, fun w c w' u hrun hstrays hexcused halike hkeeps hquiet => ?_⟩
  obtain ⟨a, w₁, hrun₁, hrun₂⟩ := bind_eq_ok.mp hrun
  have hfirst : Proceeds w w₁ := hx.1.of_ok hrun₁
  have hrest : Proceeds w₁ w' := (hle a).of_ok hrun₂
  have hstrays₁ : w₁.strays = w.strays := Nat.le_antisymm (hstrays ▸ hrest.strays) hfirst.strays
  obtain ⟨b, u₁, hy, hq, halike₁, hopens₁⟩ := hx.2 w a w₁ u hrun₁ hstrays₁
    (hexcused.mono (List.prefix_refl _) hrest.calls) halike (hrest.pins.trans hkeeps) hquiet
  obtain ⟨d, u₂, hg, hq', halike₂, hopens₂⟩ := (hf a b hq).2 w₁ c w' u₁ hrun₂ (hstrays.trans hstrays₁.symm)
    (hexcused.mono hfirst.calls (List.prefix_refl _)) halike₁ (hopens₁.keeps hkeeps) (hopens₁.quiet hquiet)
  exact ⟨d, u₂, bind_eq_ok.mpr ⟨b, u₁, hy, hg⟩, hq', halike₂, trans_of Reopens hopens₁ hopens₂⟩

theorem Repeats.reruns (h : Repeats Q x y) : Reruns platform Q x y := by
  refine ⟨h.1.mono fun _ _ => ReadsOnly.proceeds, fun w a w' u hrun hstrays _ halike _ _ => ?_⟩
  have hends : EndsAlike Q u (x.run w) (y.run u) := h.2 w u halike.1 (by rw [hrun]; exact hstrays)
  have hreads : ReadsOnly w w' := h.1.of_ok hrun
  rw [hrun] at hends
  rcases hends with ⟨_, b, _, heq, hy, hq⟩ | ⟨_, _, heq, -⟩
  · cases heq
    obtain ⟨failbit, strays, rfl, -⟩ := hreads
    exact ⟨b, _, hy, hq, ⟨rfl, halike.2⟩, rfl, [], by simp⟩
  · cases heq

end Reruns

/-! ### Maps -/

/-- What `bpfGetFdMapType` and its like tell of an object. -/
def infoOf : Object → MapField → Int32
  | .map attr, field => (attr.get field).toInt32
  | .prog _, _ => -1

/-- The map matches the expectations of its definition. -/
def Expected (platform : Platform) (mapDef : BpfMapDef) (object : Object) : Prop :=
  let type := mapType platform mapDef
  let desiredMapFlags :=
    if type = bpfMapTypeDevmap ∨ type = bpfMapTypeDevmapHash then mapDef.mapFlags ||| bpfFRdonlyProg
    else mapDef.mapFlags
  infoOf object .mapType = type.toInt32 ∧ infoOf object .keySize = mapDef.keySize.toInt32 ∧
    infoOf object .valueSize = mapDef.valueSize.toInt32 ∧
    infoOf object .maxEntries = (desiredMaxEntries platform mapDef type).toInt32 ∧
    infoOf object .mapFlags = desiredMapFlags.toInt32

instance (platform : Platform) (mapDef : BpfMapDef) (object : Object) : Decidable (Expected platform mapDef object) :=
  inferInstanceAs (Decidable (_ ∧ _))

/-- The calls for the fields of a map. -/
def fieldCalls (fd : Int) : List Syscall :=
  [.mapInfo fd .mapType, .mapInfo fd .keySize, .mapInfo fd .valueSize, .mapInfo fd .maxEntries, .mapInfo fd .mapFlags]

section Maps
variable {platform : Platform} {locationPrefix objName : List UInt8} {mapDef : BpfMapDef} {mapName : List UInt8}
  {path : Path} {fd : Int} {object : Object} {u w w' : World}

theorem run_bpfGetFdMap {field : MapField} (hfd : w.fds.lookup fd = some object)
    (hfails : platform.fails (w.calls ++ [.mapInfo fd field]) = none) : (bpfGetFdMap platform fd field).run w =
      .ok (infoOf object field) { w with calls := w.calls ++ [.mapInfo fd field] } := by
  rw [bpfGetFdMap, EStateM.run_bind, run_syscall]
  simp only [hfails, hfd]
  cases object <;> rfl

theorem run_mapMatchesExpectations (hfd : w.fds.lookup fd = some object)
    (hfails : ∀ calls field, w.calls <+: calls → calls ++ [.mapInfo fd field] <+: w.calls ++ fieldCalls fd →
      platform.fails (calls ++ [.mapInfo fd field]) = none) :
    (mapMatchesExpectations platform fd mapDef (mapType platform mapDef)).run w =
      .ok (decide (Expected platform mapDef object)) { w with calls := w.calls ++ fieldCalls fd } := by
  have hstep {α : Type} (before after : List Syscall) (field : MapField) (f : Int32 → Prog α)
      (hsplit : fieldCalls fd = before ++ .mapInfo fd field :: after) :
      (bpfGetFdMap platform fd field >>= f).run { w with calls := w.calls ++ before } =
        (f (infoOf object field)).run { w with calls := w.calls ++ (before ++ [.mapInfo fd field]) } := by
    have hrun := run_bpfGetFdMap (w := { w with calls := w.calls ++ before }) hfd
      (hfails _ field (List.prefix_append _ _) ⟨after, by simp [hsplit]⟩)
    rw [EStateM.run_bind, hrun, List.append_assoc]
  have hnil : w = { w with calls := w.calls ++ [] } := by rw [List.append_nil]
  rw [mapMatchesExpectations, hnil, hstep [] _ .mapType _ rfl, hstep _ _ .keySize _ rfl, hstep _ _ .valueSize _ rfl,
    hstep _ _ .maxEntries _ rfl, hstep _ [] .mapFlags _ rfl, List.append_nil]
  rfl

theorem lookup_of_bpfFdGet (h : (bpfFdGet platform path).run w = .ok (.ok fd) w') :
    ∃ node, w.pins path = some node ∧ w'.fds.lookup fd = some node.object := by
  rcases syscall_cases h with ⟨err, hresult, -⟩ | ⟨a, hresult, heffect⟩
  · cases hresult
  · cases hresult
    split at heffect
    · rename_i node hnode
      cases heffect
      exact ⟨node, hnode, List.lookup_cons_self⟩
    · cases heffect

theorem exists_run_bpfGetFdMap (field : MapField) (w : World) : ∃ value, (bpfGetFdMap platform fd field).run w =
    .ok value { w with calls := w.calls ++ [.mapInfo fd field] } := by
  rw [bpfGetFdMap, EStateM.run_bind, run_syscall]
  dsimp only
  cases platform.fails (w.calls ++ [.mapInfo fd field]) with
  | some err => exact ⟨_, rfl⟩
  | none =>
    rcases w.fds.lookup fd with _ | ⟨attr | attr⟩ <;> exact ⟨_, rfl⟩

theorem calls_mapMatchesExpectations {type : UInt32} {isMatch : Bool}
    (h : (mapMatchesExpectations platform fd mapDef type).run w = .ok isMatch w') : w'.calls = w.calls ++ fieldCalls fd := by
  have hstep {α : Type} (field : MapField) (f : Int32 → Prog α) (v : World) :
      ∃ value, (bpfGetFdMap platform fd field >>= f).run v =
        (f value).run { v with calls := v.calls ++ [.mapInfo fd field] } := by
    obtain ⟨value, hrun⟩ := @exists_run_bpfGetFdMap platform fd field v
    exact ⟨value, by rw [EStateM.run_bind, hrun]⟩
  rw [mapMatchesExpectations] at h
  obtain ⟨fdType, h₁⟩ := hstep .mapType _ w
  rw [h₁] at h
  obtain ⟨fdKeySize, h₂⟩ := hstep .keySize _ _
  rw [h₂] at h
  obtain ⟨fdValueSize, h₃⟩ := hstep .valueSize _ _
  rw [h₃] at h
  obtain ⟨fdMaxEntries, h₄⟩ := hstep .maxEntries _ _
  rw [h₄] at h
  obtain ⟨fdMapFlags, h₅⟩ := hstep .mapFlags _ _
  rw [h₅] at h
  obtain ⟨-, rfl⟩ := pure_eq_ok.mp h
  simp [fieldCalls]

/-- Where a match is found and no field was read in vain, the object is as expected. -/
theorem expected_of_match (hfd : w.fds.lookup fd = some object)
    (h : (mapMatchesExpectations platform fd mapDef (mapType platform mapDef)).run w = .ok true w')
    (hexcused : ∀ calls field, w.calls <+: calls → calls ++ [.mapInfo fd field] <+: w'.calls →
      platform.fails (calls ++ [.mapInfo fd field]) = none) : Expected platform mapDef object := by
  rw [calls_mapMatchesExpectations h] at hexcused
  rw [run_mapMatchesExpectations hfd hexcused] at h
  exact of_decide_eq_true (pure_eq_ok.mp h).1

theorem calls_le_of_ok {α : Type} {x : Prog α} {a : α} (hx : Within (Grows fun _ => True) x) (h : x.run w = .ok a w') :
    w.calls <+: w'.calls := (hx.of_ok h).calls_le

/-- A map in range that has gone through is pinned, and is as expected. -/
theorem expected_of_createMap {m : BpfMapDef × List UInt8} (hrange : m.1.inRange platform = true)
    (hexcused : Unexcused platform w w') (h : (createMap platform locationPrefix objName m.1 m.2).run w = .ok fd w') :
    ∃ node, w'.pins (pathOf locationPrefix objName m) = some node ∧ Expected platform m.1 node.object := by
  obtain ⟨hmin, hmax⟩ := of_decide_eq_true hrange
  rw [createMap] at h
  split at h
  · cases h
  rw [if_neg (UInt32.not_lt.mpr hmin), if_neg (UInt32.not_le.mpr hmax)] at h
  obtain ⟨reuse, w₁, haccess, h⟩ := bind_eq_ok.mp h
  have hcalls₁ : w.calls <+: w₁.calls := calls_le_of_ok (grows_access trivial) haccess
  cases reuse with
  | ok u =>
    obtain ⟨opened, w₂, hget, h⟩ := bind_eq_ok.mp h
    obtain ⟨fd', w₃, hopened, h⟩ := bind_eq_ok.mp h
    obtain ⟨isMatch, w₄, hmatch, h⟩ := bind_eq_ok.mp h
    cases opened with
    | error err => cases hopened
    | ok fd =>
      obtain ⟨rfl, rfl⟩ := pure_eq_ok.mp hopened
      obtain ⟨node, hnode, hlookup⟩ := lookup_of_bpfFdGet hget
      cases isMatch with
      | false => cases h
      | true =>
        obtain ⟨_, w₅, hid, h⟩ := bind_eq_ok.mp h
        obtain ⟨-, rfl⟩ := pure_eq_ok.mp h
        have hcalls₂ : w₁.calls <+: w₂.calls := calls_le_of_ok (grows_bpfFdGet trivial) hget
        have hrest : w₄.calls <+: w₅.calls := calls_le_of_ok (grows_bpfGetFdId trivial) hid
        have hpins₂ : w₂.pins = w₁.pins := Within.of_ok (R := SamePins) within_bpfFdGet hget
        have hpins₄ : w₄.pins = w₂.pins := Within.of_ok (R := SamePins) within_mapMatchesExpectations hmatch
        have hpins₅ : w₅.pins = w₄.pins := Within.of_ok (R := SamePins) within_bpfGetFdId hid
        refine ⟨node, by rw [hpins₅, hpins₄, hpins₂]; exact hnode, expected_of_match hlookup hmatch ?_⟩
        exact fun calls field hle hcalls =>
          hexcused calls _ ((hcalls₁.trans hcalls₂).trans hle) (hcalls.trans hrest) rfl
  | error err =>
    obtain ⟨opened, w₂, hcreate, hopen⟩ := bind_eq_ok.mp h
    obtain ⟨fd', w₃, hopened, hopen⟩ := bind_eq_ok.mp hopen
    obtain ⟨isMatch, w₄, hmatch, hrest⟩ := bind_eq_ok.mp hopen
    cases opened with
    | error err => cases hopened
    | ok fd =>
      obtain ⟨rfl, rfl⟩ := pure_eq_ok.mp hopened
      have hlookup : w₂.fds.lookup fd = some (.map (declaredAttr platform m.1)) := lookup_of_bpfMapCreate hcreate
      cases isMatch with
      | false => cases hrest
      | true =>
        obtain ⟨_, w₅, hpin, hrest⟩ := bind_eq_ok.mp hrest
        obtain ⟨_, w₆, hid, hrest⟩ := bind_eq_ok.mp hrest
        obtain ⟨-, rfl⟩ := pure_eq_ok.mp hrest
        have hcalls₂ : w₁.calls <+: w₂.calls := calls_le_of_ok (grows_bpfMapCreate trivial) hcreate
        have hcalls₅ : w₄.calls <+: w₅.calls := calls_le_of_ok (grows_pinNew (fun _ _ => trivial) _ _ _ _ _) hpin
        have hcalls₆ : w₅.calls <+: w₆.calls := calls_le_of_ok (grows_bpfGetFdId trivial) hid
        have hfds : w₄.fds = w₂.fds := (Within.of_ok (R := SameObjects) within_mapMatchesExpectations hmatch).2
        have hpins₆ : w₆.pins = w₅.pins := Within.of_ok (R := SamePins) within_bpfGetFdId hid
        obtain ⟨-, hmade⟩ := pinNew_eq_ok (hfds ▸ hlookup) hpin
        refine ⟨_, by rw [hpins₆, hmade]; exact Function.update_self .., expected_of_match hlookup hmatch ?_⟩
        exact fun calls field hle hcalls =>
          hexcused calls _ ((hcalls₁.trans hcalls₂).trans hle) (hcalls.trans (hcalls₅.trans hcalls₆)) rfl

/-! ### Opening what is there -/

theorem Alike.trans {v : World} (h : Alike u v) (h' : Alike v w) : Alike u w := ⟨h.1.trans h'.1, h.2.trans h'.2⟩

/-- What is pinned is found, and opened. -/
theorem run_open_of_pinned {node : Node} (hquiet : Quiet platform u.calls) (hnode : u.pins path = some node) :
    ∃ fd u₁ u₂, (access platform path).run u = .ok (.ok ()) u₁ ∧ (bpfFdGet platform path).run u₁ = .ok (.ok fd) u₂ ∧
      u₂.fds.lookup fd = some node.object ∧ Alike u u₂ ∧ Reopens u u₂ := by
  have hfails : platform.fails (u.calls ++ [.access path]) = none := hquiet _ _ (List.prefix_refl _) rfl
  have hfails' : platform.fails ((u.calls ++ [.access path]) ++ [.objGet path]) = none :=
    hquiet _ _ (List.prefix_append _ _) rfl
  have haccess : (access platform path).run u = .ok (.ok ()) { u with calls := u.calls ++ [.access path] } := by
    rw [access, run_syscall]
    simp [hfails, hnode]
  refine ⟨_, _, { u with
    calls := (u.calls ++ [.access path]) ++ [.objGet path]
    fds := (↑(platform.newFd ((u.calls ++ [.access path]) ++ [.objGet path])), node.object) :: u.fds },
    haccess, ?_, List.lookup_cons_self, ⟨rfl, rfl⟩, ?_⟩
  · rw [bpfFdGet, run_syscall]
    simp only [hfails', hnode]
    rfl
  · exact ⟨rfl, [.access path, .objGet path], List.append_assoc .., by simp [Syscall.opens]⟩

theorem run_match_of_expected (hquiet : Quiet platform u.calls) (hfd : u.fds.lookup fd = some object)
    (hexpected : Expected platform mapDef object) :
    (mapMatchesExpectations platform fd mapDef (mapType platform mapDef)).run u =
      .ok true { u with calls := u.calls ++ fieldCalls fd } := by
  rw [run_mapMatchesExpectations hfd fun calls field hle _ => hquiet calls _ hle rfl, decide_eq_true hexpected]

theorem reopens_fieldCalls : Reopens u { u with calls := u.calls ++ fieldCalls fd } :=
  ⟨rfl, _, rfl, by simp [fieldCalls, Syscall.opens]⟩

theorem reopens_idInfo : Reopens u { u with calls := u.calls ++ [.idInfo fd] } := ⟨rfl, _, rfl, by simp [Syscall.opens]⟩

theorem reruns_createMap (m : BpfMapDef × List UInt8) : Reruns platform (fun _ _ => True)
    (createMap platform locationPrefix objName m.1 m.2) (createMap platform locationPrefix objName m.1 m.2) := by
  refine ⟨proceeds_createMap _ _, fun w fd w' u hrun _ hexcused halike hkeeps hquiet => ?_⟩
  have hzero : m.1.zero = 0 := by
    by_contra hne
    rw [createMap, if_pos hne] at hrun
    cases hrun
  cases hrange : m.1.inRange platform with
  | false =>
    rw [createMap_of_not_inRange hzero hrange] at hrun ⊢
    obtain ⟨-, rfl⟩ := pure_eq_ok.mp hrun
    exact ⟨_, u, rfl, trivial, halike, refl_of Reopens u⟩
  | true =>
    obtain ⟨node, hnode, hexpected⟩ := expected_of_createMap hrange hexcused hrun
    have hfailbit : w'.failbit = w.failbit := Within.of_ok (R := SameStream) sameStream_createMap hrun
    have hcritical : w'.isCritical = w.isCritical := Within.of_ok (R := SameCritical) frame_createMap hrun
    have hpin : u.pins (pathOf locationPrefix objName m) = some node := by
      rw [hkeeps _ (by rw [hnode]; rfl), hnode]
    obtain ⟨hmin, hmax⟩ := of_decide_eq_true hrange
    obtain ⟨fd', u₁, u₂, haccess, hget, hlookup, halike₂, hopens₂⟩ := run_open_of_pinned hquiet hpin
    have hmatch := run_match_of_expected (hopens₂.quiet hquiet) hlookup hexpected
    have hopens : Reopens u { u₂ with calls := u₂.calls ++ fieldCalls fd' ++ [.idInfo fd'] } :=
      trans_of Reopens hopens₂ (trans_of Reopens reopens_fieldCalls reopens_idInfo)
    have halike' : Alike w' { u₂ with calls := u₂.calls ++ fieldCalls fd' ++ [.idInfo fd'] } :=
      .trans ⟨hfailbit.trans halike.1, hcritical.trans halike.2⟩ (.trans halike₂ ⟨rfl, rfl⟩)
    refine ⟨fd', _, ?_, trivial, halike', hopens⟩
    rw [createMap, if_neg (not_not_intro hzero), if_neg (UInt32.not_lt.mpr hmin), if_neg (UInt32.not_le.mpr hmax)]
    refine bind_eq_ok.mpr ⟨.ok (), u₁, haccess, bind_eq_ok.mpr ⟨.ok fd', u₂, hget, bind_eq_ok.mpr ⟨fd', u₂, rfl, ?_⟩⟩⟩
    exact bind_eq_ok.mpr ⟨true, _, hmatch, bind_eq_ok.mpr ⟨⟨⟩, _, run_bpfGetFdId, rfl⟩⟩

end Maps

/-! ### Objects -/

section Objects
variable {platform : Platform} {locationPrefix objName license : List UInt8}

theorem reruns_createMapsFrom (md : List BpfMapDef) : ∀ (i : Nat) (mapNames : List (List UInt8)),
    Reruns platform (fun fds fds' => fds.length = fds'.length)
      (createMapsFrom platform locationPrefix objName md i mapNames)
      (createMapsFrom platform locationPrefix objName md i mapNames)
  | _, [] => .pure rfl
  | i, mapName :: mapNames => by
    have hrest : Within Proceeds (createMapsFrom platform locationPrefix objName md (i + 1) mapNames) :=
      within_createMapsFrom proceeds_createMap md (i + 1) mapNames
    refine Reruns.bind stable_elementAt.reruns (fun mapDef => ?_) fun mapDef _ heq => ?_
    · exact Within.bind (proceeds_createMap _ _) fun _ => Within.bind hrest fun _ => Within.pure _
    · subst heq
      refine Reruns.bind (reruns_createMap (mapDef, mapName)) (fun _ => Within.bind hrest fun _ => Within.pure _)
        fun _ _ _ => ?_
      refine Reruns.bind (reruns_createMapsFrom md (i + 1) mapNames) (fun _ => Within.pure _) fun fds fds' h => ?_
      exact .pure (congrArg (· + 1) h)

theorem reruns_createMaps (elfFile elfPath : List UInt8) : Reruns platform (fun fds fds' => fds.length = fds'.length)
    (createMaps platform elfFile elfPath locationPrefix) (createMaps platform elfFile elfPath locationPrefix) := by
  have hall : Within Proceeds (createMaps platform elfFile elfPath locationPrefix) :=
    within_createMaps proceeds_createMap elfFile
  have hloop (md : List BpfMapDef) (names : List (List UInt8)) :
      Within Proceeds (createMapsFrom platform locationPrefix (pathToObjName elfPath) md 0 names) :=
    within_createMapsFrom proceeds_createMap md 0 names
  refine Reruns.bind (stable_readSectionByName _).tried.reruns (fun read => ?_) fun read _ heq => ?_
  · cases read with
    | error ret =>
      dsimp only
      split
      · exact Within.pure _
      · exact Within.throw _
    | ok mdData =>
      dsimp only
      split
      · exact Within.throw _
      · exact Within.bind (reads_getSectionSymNames _ _) fun _ => Within.bind (reads_checked _) fun _ => hloop _ _
  · subst heq
    cases read with
    | error ret =>
      dsimp only
      split
      · exact .pure rfl
      · exact .throw
    | ok mdData =>
      dsimp only
      split
      · exact .throw
      · refine Reruns.bind (stable_getSectionSymNames _ _).reruns (fun _ => ?_) fun result _ heq => ?_
        · exact Within.bind (reads_checked _) fun _ => hloop _ _
        · subst heq
          refine Reruns.bind (stable_checked _).reruns (fun _ => hloop _ _) fun names _ heq => ?_
          subst heq
          exact reruns_createMapsFrom _ _ _

/-- A program for this kernel that has gone through is pinned, if no load was excused. -/
theorem pinned_of_loadCodeSection {cs cs' : CodeSection} {progDef : BpfProgDef} {w w' : World}
    (hdef : cs.progDef = some progDef) (hrange : progDef.inRange platform = true) (hexcused : Unexcused platform w w')
    (h : (loadCodeSection platform objName license locationPrefix cs).run w = .ok cs' w') :
    (w'.pins (progPinLoc locationPrefix objName cs.name)).isSome := by
  rw [loadCodeSection, hdef] at h
  dsimp only at h
  rw [hrange] at h
  obtain ⟨reuse, w₁, haccess, h⟩ := bind_eq_ok.mp h
  cases reuse with
  | ok u =>
    obtain ⟨opened, w₂, hget, h⟩ := bind_eq_ok.mp h
    cases opened with
    | error err => cases h
    | ok fd =>
      obtain ⟨_, w₃, hid, h⟩ := bind_eq_ok.mp h
      obtain ⟨-, rfl⟩ := pure_eq_ok.mp h
      have hw₁ := pinned_of_ok (grows_access trivial) haccess (access_ok haccess)
      exact pinned_of_ok (grows_bpfGetFdId trivial) hid (pinned_of_ok (grows_bpfFdGet trivial) hget hw₁)
  | error err =>
    obtain ⟨opened, w₂, hload, h⟩ := bind_eq_ok.mp h
    cases opened with
    | ok fd =>
      obtain ⟨_, w₃, hpin, h⟩ := bind_eq_ok.mp h
      obtain ⟨_, w₄, hid, h⟩ := bind_eq_ok.mp h
      obtain ⟨-, rfl⟩ := pure_eq_ok.mp h
      exact pinned_of_ok (grows_bpfGetFdId trivial) hid (pinNew_ok hpin)
    | error err =>
      -- The load has failed, so a call that would be excused has.
      have hcalls₁ : w.calls <+: w₁.calls := calls_le_of_ok (grows_access trivial) haccess
      have hw' : w' = w₂ := by
        dsimp only at h
        split at h
        · exact (pure_eq_ok.mp h).2.symm
        · cases h
      rcases syscall_cases hload with ⟨err', -, hw₂⟩ | ⟨_, hresult, -⟩
      · have hfails := hexcused w₁.calls _ hcalls₁ (by rw [hw', hw₂]) rfl
        rw [bpfProgLoad, run_syscall] at hload
        simp only [hfails] at hload
        cases hload
      · cases hresult

theorem reruns_loadCodeSection {cs cs' : CodeSection} (hsame : cs.SameProgram cs') : Reruns platform (fun _ _ => True)
    (loadCodeSection platform objName license locationPrefix cs)
    (loadCodeSection platform objName license locationPrefix cs') := by
  refine ⟨proceeds_loadCodeSection cs, fun w cs₁ w' u hrun _ hexcused halike hkeeps hquiet => ?_⟩
  obtain ⟨-, hname, hdef'⟩ := hsame
  cases hdef : cs.progDef with
  | none =>
    rw [loadCodeSection, hdef] at hrun
    cases hrun
  | some progDef =>
    cases hrange : progDef.inRange platform with
    | false =>
      rw [loadCodeSection, hdef] at hrun
      dsimp only at hrun
      rw [hrange] at hrun
      obtain ⟨-, rfl⟩ := pure_eq_ok.mp hrun
      refine ⟨cs', u, ?_, trivial, halike, refl_of Reopens u⟩
      rw [loadCodeSection, hdef'.trans hdef]
      dsimp only
      rw [hrange]
      rfl
    | true =>
      have hpin := pinned_of_loadCodeSection hdef hrange hexcused hrun
      have hfailbit : w'.failbit = w.failbit := Within.of_ok (R := SameStream) frame_loadCodeSection hrun
      have hcritical : w'.isCritical = w.isCritical := Within.of_ok (R := SameCritical) frame_loadCodeSection hrun
      obtain ⟨node, hnode⟩ := Option.isSome_iff_exists.mp hpin
      obtain ⟨fd, u₁, u₂, haccess, hget, -, halike₂, hopens₂⟩ :=
        run_open_of_pinned hquiet ((hkeeps _ hpin).trans hnode)
      have halike' : Alike w' { u₂ with calls := u₂.calls ++ [.idInfo fd] } :=
        .trans ⟨hfailbit.trans halike.1, hcritical.trans halike.2⟩ (.trans halike₂ ⟨rfl, rfl⟩)
      refine ⟨⟨cs'.type, cs.name, cs'.data, cs'.relData, some progDef, fd⟩, _, ?_, trivial, halike',
        trans_of Reopens hopens₂ reopens_idInfo⟩
      rw [loadCodeSection, hdef'.trans hdef, hname]
      dsimp only
      rw [hrange]
      refine bind_eq_ok.mpr ⟨.ok (), u₁, haccess, bind_eq_ok.mpr ⟨.ok fd, u₂, hget, ?_⟩⟩
      exact bind_eq_ok.mpr ⟨⟨⟩, _, run_bpfGetFdId, rfl⟩

theorem reruns_mapM : ∀ {css css' : List CodeSection}, css.Forall₂ CodeSection.SameProgram css' →
    Reruns platform (fun _ _ => True) (css.mapM (loadCodeSection platform objName license locationPrefix))
      (css'.mapM (loadCodeSection platform objName license locationPrefix))
  | _, _, .nil => .pure trivial
  | cs :: css, cs' :: css', .cons hsame hrest => by
    have hproceeds : Within Proceeds (css.mapM (loadCodeSection platform objName license locationPrefix)) :=
      Within.mapM fun cs _ => proceeds_loadCodeSection cs
    rw [List.mapM_cons, List.mapM_cons]
    refine Reruns.bind (reruns_loadCodeSection hsame) (fun _ => Within.bind hproceeds fun _ => Within.pure _) fun _ _ _ => ?_
    exact Reruns.bind (reruns_mapM hrest) (fun _ => Within.pure _) fun _ _ _ => .pure trivial

theorem reruns_critical (isCritical : Bool) : Reruns platform (fun _ _ => True)
    (modify fun w => { w with isCritical }) (modify fun w => { w with isCritical }) := by
  refine ⟨Within.modify fun w => LoadFrame.critical w _, fun w _ w' u hrun _ _ halike _ _ => ?_⟩
  cases hrun
  exact ⟨⟨⟩, { u with isCritical }, rfl, trivial, ⟨halike.1, rfl⟩, rfl, [], by simp⟩

theorem reruns_readLicense (elfFile : List UInt8) :
    Reruns platform Eq (readLicense platform elfFile) (readLicense platform elfFile) := by
  refine Reruns.bind (stable_readSectionByName _).tried.reruns (fun critical => ?_) fun critical _ heq => ?_
  · exact Within.bind (Within.modify fun w => LoadFrame.critical w _) fun _ => reads_readSectionByName _
  · subst heq
    exact Reruns.bind (reruns_critical _) (fun _ => reads_readSectionByName _) fun _ _ _ =>
      (stable_readSectionByName _).reruns

theorem reruns_loadSections {location : Location} (elfPath elfFile license : List UInt8) :
    Reruns platform (fun _ _ => True) (loadSections platform elfPath elfFile location license)
      (loadSections platform elfPath elfFile location license) := by
  have hload (css : List CodeSection) (license : List UInt8) :
      Within Proceeds (loadCodeSections platform elfPath css license location.locationPrefix) := by
    unfold loadCodeSections
    split
    · exact Within.throw _
    · exact Within.mapM fun cs _ => proceeds_loadCodeSection cs
  have hafterRelo (css : List CodeSection) (license : List UInt8) : Within Proceeds (do
      let license ← licenseString platform license
      loadCodeSections platform elfPath css license location.locationPrefix) :=
    Within.bind (reads_licenseString _) fun _ => hload _ _
  have hafterMaps (mapFds : List Int) (css : List CodeSection) (license : List UInt8) : Within Proceeds (do
      let cs ← applyMapRelo platform elfFile mapFds css
      let license ← licenseString platform license
      loadCodeSections platform elfPath cs license location.locationPrefix) :=
    Within.bind (reads_applyMapRelo _ _) fun _ => hafterRelo _ _
  have hmaps : Within Proceeds (createMaps platform elfFile elfPath location.locationPrefix) :=
    within_createMaps proceeds_createMap elfFile
  refine Reruns.bind (stable_readCodeSections _).reruns (fun css => Within.bind hmaps fun _ => hafterMaps _ _ _)
    fun css _ heq => ?_
  subst heq
  refine Reruns.bind (reruns_createMaps elfFile elfPath) (fun _ => hafterMaps _ _ _) fun mapFds mapFds' hlength => ?_
  refine Reruns.bind (repeats_applyMapRelo hlength css).reruns (fun _ => hafterRelo _ _) fun css' css'' hsame => ?_
  refine Reruns.bind (stable_licenseString _).reruns (fun _ => hload _ _) fun license' _ heq => ?_
  subst heq
  unfold loadCodeSections
  split
  · exact .throw
  · exact reruns_mapM hsame

/-- An object that has gone through goes through again. -/
theorem rerun_loadProg {location : Location} {elfPath : List UInt8} {elfFile : Option (List UInt8)}
    {cs : List CodeSection} {u w w' : World} (h : (loadProg platform elfPath elfFile location).run w = .ok cs w')
    (hstrays : w'.strays = w.strays) (hexcused : Unexcused platform w w') (hfailbit : w.failbit = u.failbit)
    (hkeeps : Keeps w' u) (hquiet : Quiet platform u.calls) :
    ∃ cs' u', (loadProg platform elfPath elfFile location).run u = .ok cs' u' ∧ Alike w' u' ∧ Reopens u u' := by
  unfold loadProg at h ⊢
  rw [run_modify_bind] at h
  cases elfFile with
  | none => cases h
  | some elfFile =>
    have hstart : Alike { w with isCritical := false } { u with isCritical := false } := ⟨hfailbit, rfl⟩
    have hreruns : Reruns platform (fun _ _ => True)
        (readLicense platform elfFile >>= loadSections platform elfPath elfFile location)
        (readLicense platform elfFile >>= loadSections platform elfPath elfFile location) := by
      refine Reruns.bind (reruns_readLicense elfFile) (fun license => ?_) fun license _ heq => ?_
      · exact within_loadSections proceeds_createMap (fun _ cs _ => proceeds_loadCodeSection cs) elfFile license
      · subst heq
        exact reruns_loadSections elfPath elfFile license
    obtain ⟨cs', u', hrun, -, halike, hopens⟩ :=
      hreruns.2 _ cs w' { u with isCritical := false } h hstrays hexcused hstart hkeeps hquiet
    exact ⟨cs', u', hrun, halike, hopens⟩

end Objects

/-! ### Directories -/

section Directory
variable {platform : Platform} {location : Location} {u w w' : World}

theorem loadObject_eq_ok {ent : DirEntry} {report : Report} :
    (loadObject platform location ent).run w = .ok report w' ↔
      ∃ result w₁, (tried (loadProg platform (location.dir ++ ent.dName) ent.file location)).run
          { w with failbit := false, fds := [] } = .ok result w₁ ∧ { w₁ with fds := [] } = w' ∧
        ⟨location.dir ++ ent.dName, codeOf result, w₁.isCritical⟩ = report := by
  rw [loadObject, run_modify_bind, bind_eq_ok]
  simp only [bind_modify_eq_ok, bind_get_eq_ok, pure_eq_ok]
  exact ⟨fun ⟨result, w₁, hrun, hreport, hw'⟩ => ⟨result, w₁, hrun, hw', hreport⟩,
    fun ⟨result, w₁, hrun, hw', hreport⟩ => ⟨result, w₁, hrun, hreport, hw'⟩⟩

theorem rerun_loadObject {ent : DirEntry} {report : Report}
    (h : (loadObject platform location ent).run w = .ok report w') (hret : report.ret = none)
    (hstrays : w'.strays = w.strays) (hexcused : Unexcused platform w w') (hkeeps : Keeps w' u)
    (hquiet : Quiet platform u.calls) : ∃ u', (loadObject platform location ent).run u = .ok report u' ∧ Reopens u u' := by
  obtain ⟨result, w₁, hrun, rfl, rfl⟩ := loadObject_eq_ok.mp h
  rcases tried_eq_ok.mp hrun with ⟨cs, rfl, hload⟩ | ⟨ret, rfl, -⟩
  · obtain ⟨cs', u₁, hload', halike, hopens⟩ :=
      rerun_loadProg (u := { u with failbit := false, fds := [] }) hload hstrays hexcused rfl hkeeps hquiet
    refine ⟨{ u₁ with fds := [] }, loadObject_eq_ok.mpr ⟨.ok cs', u₁, ?_, rfl, ?_⟩, hopens⟩
    · exact tried_eq_ok.mpr (.inl ⟨cs', rfl, hload'⟩)
    · rw [halike.2]
      rfl
  · cases hret

/-- Where no object has failed, none fails in the next run. -/
theorem rerun_loadEntries : ∀ {ents : List DirEntry} {retVal retVal' : Option Ret} {reports : List Report} {u w w' : World},
    (loadEntries platform location retVal ents).run w = .ok (retVal', reports) w' → (∀ report ∈ reports, report.ret = none) →
    w'.strays = w.strays → Unexcused platform w w' → Keeps w' u → Quiet platform u.calls →
    ∃ u', (loadEntries platform location retVal ents).run u = .ok (retVal', reports) u' ∧ Reopens u u'
  | [], _, _, _, u, _, _, h, _, _, _, _, _ => by
    obtain ⟨heq, -⟩ := pure_eq_ok.mp h
    obtain ⟨rfl, rfl⟩ := Prod.mk.inj heq
    exact ⟨u, rfl, refl_of Reopens u⟩
  | ent :: ents, retVal, _, _, u, w, w', h, hrets, hstrays, hexcused, hkeeps, hquiet => by
    rw [loadEntries] at h ⊢
    split at h
    · rename_i hobject
      rw [if_pos hobject]
      exact rerun_loadEntries h hrets hstrays hexcused hkeeps hquiet
    · rename_i hobject
      rw [if_neg hobject]
      obtain ⟨report, w₁, hreport, h⟩ := bind_eq_ok.mp h
      obtain ⟨⟨retVal', rest⟩, w₂, hrest, h⟩ := bind_eq_ok.mp h
      obtain ⟨heq, rfl⟩ := pure_eq_ok.mp h
      obtain ⟨rfl, rfl⟩ := Prod.mk.inj heq
      obtain ⟨hret, hrets⟩ := List.forall_mem_cons.mp hrets
      have hfirst : Proceeds w w₁ := (within_loadObject proceeds_loadProg ent).of_ok hreport
      have hnext : Proceeds w₁ w₂ := (within_loadEntries proceeds_loadProg _ ents).of_ok hrest
      have hstrays₁ : w₁.strays = w.strays := Nat.le_antisymm (hstrays ▸ hnext.strays) hfirst.strays
      obtain ⟨u₁, hreport', hopens₁⟩ := rerun_loadObject hreport hret hstrays₁
        (hexcused.mono (List.prefix_refl _) hnext.calls) (hnext.pins.trans hkeeps) hquiet
      obtain ⟨u₂, hrest', hopens₂⟩ := rerun_loadEntries hrest hrets (hstrays.trans hstrays₁.symm)
        (hexcused.mono hfirst.calls (List.prefix_refl _)) (hopens₁.keeps hkeeps) (hopens₁.quiet hquiet)
      exact ⟨u₂, bind_eq_ok.mpr ⟨report, u₁, hreport', bind_eq_ok.mpr ⟨_, u₂, hrest', rfl⟩⟩,
        trans_of Reopens hopens₁ hopens₂⟩

theorem rerun_loadAllElfObjects {dir : Option (List DirEntry)} {retVal : Option Ret} {reports : List Report}
    (h : (loadAllElfObjects platform location dir).run w = .ok (retVal, reports) w')
    (hrets : ∀ report ∈ reports, report.ret = none) (hstrays : w'.strays = w.strays) (hexcused : Unexcused platform w w')
    (hkeeps : Keeps w' u) (hquiet : Quiet platform u.calls) :
    ∃ u', (loadAllElfObjects platform location dir).run u = .ok (retVal, reports) u' ∧ Reopens u u' := by
  cases dir with
  | some ents => exact rerun_loadEntries h hrets hstrays hexcused hkeeps hquiet
  | none =>
    obtain ⟨heq, -⟩ := pure_eq_ok.mp h
    obtain ⟨rfl, rfl⟩ := Prod.mk.inj heq
    exact ⟨u, rfl, refl_of Reopens u⟩

end Directory

end UprobeStats.BpfLoad
