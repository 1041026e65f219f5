import UprobeStats.Theorems.BootPins
import UprobeStats.Theorems.Relocation

/-! Reading an object twice. A run that reads nothing outside of a buffer depends on the file and on the stream only, so
    one from another state, with a stream as good, ends in the same way. -/

namespace UprobeStats.BpfLoad
open Effect

/-- Nothing but the stream changes, and the count of stray reads. -/
def ReadsOnly (w w' : World) : Prop := ∃ failbit strays, w' = { w with failbit, strays } ∧ w.strays ≤ strays

instance : ReadFrame ReadsOnly where
  refl w := ⟨w.failbit, w.strays, rfl, Nat.le_refl _⟩
  trans u v w huv hvw := by
    obtain ⟨failbit, strays, rfl, hle⟩ := huv
    obtain ⟨failbit', strays', rfl, hle'⟩ := hvw
    exact ⟨failbit', strays', rfl, Nat.le_trans hle hle'⟩
  failbit w := ⟨true, w.strays, rfl, Nat.le_refl _⟩
  stray w := ⟨w.failbit, w.strays + 1, rfl, Nat.le_succ _⟩

theorem ReadsOnly.strays_le {w w' : World} (h : ReadsOnly w w') : w.strays ≤ w'.strays := by
  obtain ⟨failbit, strays, rfl, hle⟩ := h
  exact hle

/-- The second run ends like the first, with related results, and changes its stream only, and as the first does. -/
def EndsAlike {α β : Type} (Q : α → β → Prop) (u : World) (run : EStateM.Result Stop World α)
    (run' : EStateM.Result Stop World β) : Prop :=
  (∃ a b w', run = .ok a w' ∧ run' = .ok b { u with failbit := w'.failbit } ∧ Q a b) ∨
    ∃ stop w', run = .error stop w' ∧ run' = .error stop { u with failbit := w'.failbit }

/-- From states with streams as good the second program ends like the first, where that makes no stray read. -/
def Repeats {α β : Type} (Q : α → β → Prop) (x : Prog α) (y : Prog β) : Prop :=
  Within ReadsOnly x ∧ ∀ w u : World, w.failbit = u.failbit → (after (x.run w)).strays = w.strays →
    EndsAlike Q u (x.run w) (y.run u)

section Repeats
variable {α β γ δ : Type} {Q : α → β → Prop} {x : Prog α} {y : Prog β}

theorem Repeats.pure {a : α} {b : β} (h : Q a b) : Repeats Q (pure a) (pure b) :=
  ⟨Within.pure a, fun w u hw _ => .inl ⟨a, b, w, rfl, by rw [hw]; rfl, h⟩⟩

theorem Repeats.throw {stop : Stop} : Repeats Q (throw stop) (throw stop) :=
  ⟨Within.throw stop, fun w u hw _ => .inr ⟨stop, w, rfl, by rw [hw]; rfl⟩⟩

/-- A stray read repeats nothing. -/
theorem Repeats.stray {found : Nat → α} : Repeats Q (strayRead found) y :=
  ⟨reads_strayRead, fun w _ _ hstrays => absurd hstrays (Nat.succ_ne_self w.strays)⟩

theorem Repeats.bind {Q' : γ → δ → Prop} {f : α → Prog γ} {g : β → Prog δ} (hx : Repeats Q x y)
    (hle : ∀ a, Within ReadsOnly (f a)) (hf : ∀ a b, Q a b → Repeats Q' (f a) (g b)) : Repeats Q' (x >>= f) (y >>= g) := by
  refine ⟨hx.1.bind hle, fun w u hw hstrays => ?_⟩
  have hle₁ : w.strays ≤ (after (x.run w)).strays := (hx.1 w).strays_le
  cases hrun : x.run w with
  | error stop w₁ =>
    rw [after_bind_of_error hrun] at hstrays
    have halike : EndsAlike Q u (x.run w) (y.run u) := hx.2 w u hw (by rw [hrun]; exact hstrays)
    rw [hrun] at halike
    rcases halike with ⟨_, _, _, h, -⟩ | ⟨stop', w', h, hy⟩
    · cases h
    · cases h
      rw [EndsAlike, EStateM.run_bind, EStateM.run_bind, hrun, hy]
      exact .inr ⟨stop, w₁, rfl, rfl⟩
  | ok a w₁ =>
    rw [hrun] at hle₁
    rw [after_bind_of_ok hrun] at hstrays
    have hle₂ : w₁.strays ≤ (after ((f a).run w₁)).strays := (hle a w₁).strays_le
    have hfirst : w₁.strays = w.strays := Nat.le_antisymm (hstrays ▸ hle₂) hle₁
    have halike : EndsAlike Q u (x.run w) (y.run u) := hx.2 w u hw (by rw [hrun]; exact hfirst)
    rw [hrun] at halike
    rcases halike with ⟨_, b, _, h, hy, hq⟩ | ⟨_, _, h, -⟩
    · cases h
      have hrest : EndsAlike Q' _ ((f a).run w₁) ((g b).run { u with failbit := w₁.failbit }) :=
        (hf a b hq).2 w₁ { u with failbit := w₁.failbit } rfl (hstrays.trans hfirst.symm)
      rw [EndsAlike, EStateM.run_bind, EStateM.run_bind, hrun, hy]
      exact hrest
    · cases h

/-- How far an attempt came is the same in both runs. -/
def SameOutcome (Q : α → β → Prop) : Except Ret α → Except Ret β → Prop
  | .ok a, .ok b => Q a b
  | .error code, .error code' => code = code'
  | _, _ => False

theorem Repeats.tried (hx : Repeats Q x y) : Repeats (SameOutcome Q) (tried x) (tried y) := by
  refine ⟨within_tried hx.1, fun w u hw hstrays => ?_⟩
  have hsame : (after (x.run w)).strays = w.strays := by
    rw [← hstrays, BpfLoad.tried, EStateM.run_bind, run_attempt]
    rcases x.run w with ⟨a, w'⟩ | ⟨code | _, w'⟩ <;> rfl
  rw [BpfLoad.tried, BpfLoad.tried, EndsAlike, EStateM.run_bind, EStateM.run_bind, run_attempt, run_attempt]
  rcases hx.2 w u hw hsame with ⟨a, b, w', hrun, hrun', hq⟩ | ⟨stop, w', hrun, hrun'⟩
  · rw [hrun, hrun']
    exact .inl ⟨.ok a, .ok b, w', rfl, rfl, hq⟩
  · rw [hrun, hrun']
    cases stop with
    | ret code => exact .inl ⟨.error code, .error code, w', rfl, rfl, rfl⟩
    | abort => exact .inr ⟨.abort, w', rfl, rfl⟩

end Repeats

/-- A program that reads the object, and gives the same again. -/
abbrev Stable {α : Type} (x : Prog α) : Prop := Repeats Eq x x

section Stable
variable {α β : Type} {x : Prog α}

theorem Stable.pure (a : α) : Stable (pure a : Prog α) := Repeats.pure rfl

theorem Stable.bind {f : α → Prog β} (hx : Stable x) (hf : ∀ a, Stable (f a)) : Stable (x >>= f) :=
  Repeats.bind hx (fun a => (hf a).1) fun a _ h => h ▸ hf a

theorem Stable.tried (hx : Stable x) : Stable (tried x) := by
  have h : Repeats (SameOutcome Eq) (BpfLoad.tried x) (BpfLoad.tried x) := Repeats.tried hx
  have heq : ∀ a b : Except Ret α, SameOutcome Eq a b → a = b
    | .ok _, .ok _, h => congrArg Except.ok h
    | .error _, .error _, h => congrArg Except.error h
  refine ⟨h.1, fun w u hw hstrays => ?_⟩
  rcases h.2 w u hw hstrays with ⟨a, b, w', hrun, hrun', hq⟩ | hstop
  · exact .inl ⟨a, b, w', hrun, hrun', heq a b hq⟩
  · exact .inr hstop

end Stable

section Reading
variable {platform : Platform} {elfFile : List UInt8} {α : Type}

theorem stable_elementAt {xs : List α} {i : Nat} {beyond : Nat → α} : Stable (elementAt xs i beyond) := by
  unfold elementAt
  cases xs[i]? with
  | some x => exact .pure x
  | none => exact .stray

theorem stable_strayWrite {outside : Bool} : Stable (strayWrite outside) := by
  cases outside with
  | true => exact ⟨reads_strayWrite, fun w _ _ hstrays => absurd hstrays (Nat.succ_ne_self w.strays)⟩
  | false => exact ⟨reads_strayWrite, fun w u hw _ => .inl ⟨⟨⟩, ⟨⟩, w, rfl, by rw [hw]; rfl, rfl⟩⟩

theorem stable_readAt (offset size : Nat) (readError : Ret) : Stable (readAt elfFile offset size readError) := by
  refine ⟨reads_readAt _ _ _, fun w u hw _ => ?_⟩
  rw [readAt, run_get_bind, run_get_bind, ← hw]
  split
  · exact .inr ⟨_, _, rfl, rfl⟩
  · split
    · exact .inl ⟨_, _, _, rfl, by rw [hw]; rfl, rfl⟩
    · exact .inr ⟨_, _, rfl, rfl⟩

theorem stable_readElfHeader : Stable (readElfHeader elfFile) := (stable_readAt _ _ _).bind fun _ => .pure _

theorem stable_readSectionHeadersAll : Stable (readSectionHeadersAll elfFile) :=
  stable_readElfHeader.bind fun eh => by
    split
    · exact .throw
    · exact (stable_readAt _ _ _).bind fun _ => .pure _

theorem stable_readSection (sh : Elf64Shdr) : Stable (readSection platform elfFile sh) := by
  unfold readSection
  split
  · exact .throw
  · exact stable_readAt _ _ _

theorem stable_readSectionByIdx (id : Nat) : Stable (readSectionByIdx platform elfFile id) :=
  stable_readSectionHeadersAll.bind fun _ => stable_elementAt.bind fun sh => stable_readSection sh

theorem stable_readSectionHeaderStrtab : Stable (readSectionHeaderStrtab platform elfFile) :=
  stable_readElfHeader.bind fun _ => stable_readSectionByIdx _

theorem stable_cStringAt (buffer : List UInt8) (offset : Nat) : Stable (cStringAt platform buffer offset) := by
  unfold cStringAt
  cases Text.untilNul (buffer.drop offset) with
  | some text => exact .pure text
  | none => exact Stable.bind .stray fun _ => .pure _

theorem stable_licenseString (license : List UInt8) : Stable (licenseString platform license) := by
  unfold licenseString
  split
  · exact .throw
  · exact stable_cStringAt _ _

theorem stable_getSymName (nameOff : Nat) : Stable (getSymName platform elfFile nameOff) := by
  refine stable_readSectionHeaderStrtab.bind fun secStrTab => ?_
  split
  · exact .stray
  · split
    · exact .throw
    · exact stable_cStringAt _ _

theorem stable_findSection (secStrTab name : List UInt8) : ∀ shs : List Elf64Shdr,
    Stable (findSection platform elfFile secStrTab name shs)
  | [] => .throw
  | sh :: shs => by
    refine (stable_cStringAt _ _).bind fun secname => ?_
    split
    · exact stable_readSection sh
    · exact stable_findSection secStrTab name shs

theorem stable_readSectionByName (name : List UInt8) : Stable (readSectionByName platform elfFile name) :=
  stable_readSectionHeadersAll.bind fun _ => stable_readSectionHeaderStrtab.bind fun _ => stable_findSection _ _ _

theorem stable_readSectionByType (type : Nat) : Stable (readSectionByType platform elfFile type) := by
  refine stable_readSectionHeadersAll.bind fun shTable => ?_
  cases shTable.find? fun sh => sh.shType = type with
  | some sh => exact stable_readSection sh
  | none => exact .throw

theorem stable_readSymTab (sort : Bool) : Stable (readSymTab platform elfFile sort) :=
  (stable_readSectionByType _).bind fun _ => .pure _

theorem stable_readProgDefs : Stable (readProgDefs platform elfFile) := by
  refine (stable_readSectionByName _).bind fun pdData => ?_
  split
  · exact .throw
  · exact .pure _

theorem stable_findSectionIdx (sectionName : List UInt8) : ∀ (i : Nat) (shs : List Elf64Shdr),
    Stable (findSectionIdx platform elfFile sectionName i shs)
  | _, [] => .throw
  | i, sh :: shs => by
    refine (stable_getSymName _).bind fun name => ?_
    split
    · exact .pure _
    · exact stable_findSectionIdx sectionName (i + 1) shs

theorem stable_readNames : ∀ syms : List Elf64Sym, Stable (readNames platform elfFile syms)
  | [] => .pure _
  | sym :: syms => by
    refine (stable_getSymName _).tried.bind fun name => ?_
    cases name with
    | error ret => exact .pure _
    | ok name => exact (stable_readNames syms).bind fun _ => .pure _

theorem stable_getSectionSymNames (sectionName : List UInt8) (symbolType : Option Nat) :
    Stable (getSectionSymNames platform elfFile sectionName symbolType) := by
  have hfound : Stable (do
      let symtab ← readSymTab platform elfFile true
      let shTable ← readSectionHeadersAll elfFile
      let secIdx ← findSectionIdx platform elfFile sectionName 0 shTable
      pure (symtab.filter fun sym => sym.isNamed secIdx symbolType)) :=
    (stable_readSymTab _).bind fun _ => stable_readSectionHeadersAll.bind fun _ =>
      (stable_findSectionIdx _ _ _).bind fun _ => .pure _
  refine hfound.tried.bind fun found => ?_
  cases found with
  | error ret => exact .pure _
  | ok syms => exact stable_readNames syms

theorem stable_checked (result : α × Option Ret) : Stable (checked result) := by
  unfold checked
  cases result.2 with
  | none => exact .pure _
  | some ret => exact .throw

theorem stable_getSymNameByIdx (index : Nat) : Stable (getSymNameByIdx platform elfFile index) := by
  refine (stable_readSymTab _).bind fun symtab => ?_
  split
  · exact Stable.bind .stray fun _ => stable_getSymName _
  · split
    · exact .throw
    · exact stable_elementAt.bind fun _ => stable_getSymName _

theorem stable_findProgDef (pd : List BpfProgDef) (progDefNames : List (List UInt8)) (name : List UInt8) :
    Stable (findProgDef platform pd progDefNames name) := by
  unfold findProgDef
  cases progDefNames.findIdx? (· = name) with
  | none => exact .pure _
  | some j => exact stable_elementAt.bind fun _ => .pure _

theorem stable_readRelData (i : Nat) (next : List Elf64Shdr) (oldName : List UInt8) :
    Stable (readRelData platform elfFile i next oldName) := by
  refine stable_elementAt.bind fun sh => (stable_getSymName _).bind fun name => ?_
  split
  · exact stable_readSectionByIdx _
  · exact .pure _

theorem stable_readCodeSectionsFrom (allowed : Option (List BpfProgType)) (pd : List BpfProgDef)
    (progDefNames : List (List UInt8)) : ∀ (i : Nat) (shs : List Elf64Shdr),
    Stable (readCodeSectionsFrom platform elfFile allowed pd progDefNames i shs)
  | _, [] => .pure _
  | i, sh :: shs => by
    have hrest := stable_readCodeSectionsFrom allowed pd progDefNames (i + 1) shs
    refine (stable_getSymName _).bind fun oldName => ?_
    dsimp only
    split
    · exact hrest
    · split
      · exact .throw
      · refine (stable_readSectionByIdx _).bind fun data => ?_
        refine (stable_getSectionSymNames _ _).bind fun result => (stable_checked _).bind fun names => ?_
        cases names with
        | nil => exact .pure _
        | cons csSymName _ =>
          refine (stable_findProgDef _ _ _).bind fun progDef => ?_
          split
          · exact hrest
          · exact (stable_readRelData _ _ _).bind fun _ => hrest.bind fun _ => .pure _

theorem stable_readCodeSections (allowed : Option (List BpfProgType)) :
    Stable (readCodeSections platform elfFile allowed) := by
  refine stable_readSectionHeadersAll.bind fun _ => stable_readProgDefs.bind fun pd => ?_
  refine (stable_getSectionSymNames _ _).bind fun result => ?_
  split
  · exact (stable_checked _).bind fun _ => stable_readCodeSectionsFrom _ _ _ _ _
  · exact (Stable.pure _).bind fun _ => stable_readCodeSectionsFrom _ _ _ _ _

/-! ### Relocation with other descriptors -/

/-- The control flow of a relocation does not depend on the descriptors that it writes. -/
theorem repeats_relocate {mapNames : List (List UInt8)} {mapFds mapFds' : List Int}
    (hlength : mapFds.length = mapFds'.length) : ∀ (rels : List Elf64Rel) (data data' : List UInt8),
    data.length = data'.length → Repeats (fun a b => a.2 = b.2) (relocate platform elfFile mapNames mapFds rels data)
      (relocate platform elfFile mapNames mapFds' rels data')
  | [], _, _, _ => .pure rfl
  | rel :: rels, data, data', hdata => by
    have hrest (d d' : List UInt8) (hd : d.length = d'.length) :
        Repeats (fun a b => a.2 = b.2) (relocate platform elfFile mapNames mapFds rels d)
          (relocate platform elfFile mapNames mapFds' rels d') := repeats_relocate hlength rels d d' hd
    refine Repeats.bind (stable_getSymNameByIdx _).tried (fun symName => ?_) fun symName _ heq => ?_
    · cases symName with
      | error ret => exact Within.pure _
      | ok symName =>
        dsimp only
        cases mapNames.findIdx? (· = symName) with
        | none => exact reads_relocate _ _ _ _
        | some j =>
          exact Within.bind reads_elementAt fun _ => Within.bind reads_strayWrite fun _ => reads_relocate _ _ _ _
    · subst heq
      cases symName with
      | error ret => exact .pure rfl
      | ok symName =>
        dsimp only
        cases mapNames.findIdx? (· = symName) with
        | none => exact hrest data data' hdata
        | some j =>
          refine Repeats.bind (Q := fun _ _ => True) ?_
            (fun _ => Within.bind reads_strayWrite fun _ => reads_relocate _ _ _ _) fun fd fd' _ => ?_
          rotate_left
          · rw [hdata]
            refine Repeats.bind stable_strayWrite (fun _ => reads_relocate _ _ _ _) fun _ _ _ => hrest _ _ ?_
            rw [length_applyRelo, length_applyRelo, hdata]
          by_cases hj : j < mapFds.length
          · rw [elementAt, elementAt, List.getElem?_eq_getElem hj, List.getElem?_eq_getElem (hlength ▸ hj)]
            exact .pure trivial
          · rw [elementAt, List.getElem?_eq_none (Nat.not_lt.mp hj)]
            exact .stray

theorem repeats_relocateSections {mapNames : List (List UInt8)} {mapFds mapFds' : List Int}
    (hlength : mapFds.length = mapFds'.length) : ∀ css : List CodeSection,
    Repeats (List.Forall₂ CodeSection.SameProgram) (relocateSections platform elfFile mapNames mapFds css)
      (relocateSections platform elfFile mapNames mapFds' css)
  | [] => .pure .nil
  | cs :: css => by
    refine Repeats.bind (repeats_relocate hlength _ _ _ rfl) (fun result => ?_) fun result result' hthrough => ?_
    · dsimp only
      split
      · exact Within.bind (reads_relocateSections _ _ css) fun _ => Within.pure _
      · exact Within.pure _
    · obtain ⟨data, through⟩ := result
      obtain ⟨data', through'⟩ := result'
      obtain rfl : through = through' := hthrough
      cases through with
      | true =>
        refine Repeats.bind (repeats_relocateSections hlength css) (fun _ => Within.pure _) fun css' css'' h => ?_
        exact .pure (.cons ⟨rfl, rfl, rfl⟩ h)
      | false => exact .pure (.cons ⟨rfl, rfl, rfl⟩ (List.forall₂_same.mpr fun s _ => .refl s))

theorem repeats_applyMapRelo {mapFds mapFds' : List Int} (hlength : mapFds.length = mapFds'.length)
    (css : List CodeSection) : Repeats (List.Forall₂ CodeSection.SameProgram)
      (applyMapRelo platform elfFile mapFds css) (applyMapRelo platform elfFile mapFds' css) := by
  refine Repeats.bind (stable_getSectionSymNames _ _) (fun result => ?_) fun result _ heq => ?_
  · obtain ⟨mapNames, ret⟩ := result
    cases ret with
    | some ret => exact Within.pure _
    | none => exact reads_relocateSections _ _ _
  · subst heq
    obtain ⟨mapNames, ret⟩ := result
    cases ret with
    | some ret => exact .pure (List.forall₂_same.mpr fun s _ => .refl s)
    | none => exact repeats_relocateSections hlength css

end Reading

end UprobeStats.BpfLoad
