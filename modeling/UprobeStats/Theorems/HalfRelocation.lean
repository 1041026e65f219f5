import UprobeStats.Theorems.BootPins
import UprobeStats.Theorems.MapRelocation

/-! A relocation without a name for its symbol. It ends `applyMapRelo`, which has no result to tell so, and `loadProg`
    goes on with what has been relocated by then. -/

namespace UprobeStats.BpfLoad
open Effect

/-! ### Loading programs -/

/-- A `BPF_PROG_LOAD` has been issued since. -/
def Loads (w w' : World) : Prop := ∃ calls, w'.calls = w.calls ++ calls ∧ ∃ call ∈ calls, call.isProgLoad = true

section Loads
variable {platform : Platform} {φ : Syscall → Prop} {α β : Type} {u v w : World} {x : Prog α} {run : EStateM.Result Stop World α}

theorem Loads.mono (h : Loads u v) (hgrows : Grows φ v w) : Loads u w := by
  obtain ⟨calls, hcalls, call, hcall, hload⟩ := h
  obtain ⟨⟨calls', hcalls', -⟩, -⟩ := hgrows
  exact ⟨calls ++ calls', by rw [hcalls', hcalls, List.append_assoc], call, List.mem_append_left _ hcall, hload⟩

end Loads

/-! ### Turns -/

section Turn
variable (platform : Platform) (locationPrefix objName : List UInt8) (pins : Path → Option Node) (calls : List Syscall)

/-- `access` finds something pinned at the path. -/
def Found (path : Path) : Prop := platform.fails (calls ++ [.access path]) = none ∧ (pins path).isSome

/-- The kernel opens it then. -/
def Opened (path : Path) : Prop := platform.fails (calls ++ [.access path] ++ [.objGet path]) = none

/-- The section has no definition, or its program is for this kernel, is found pinned, and is not opened. -/
def CodeSection.Stops (cs : CodeSection) : Prop :=
  ∀ progDef ∈ cs.progDef, progDef.inRange platform = true ∧
    Found platform pins calls (progPinLoc locationPrefix objName cs.name) ∧
    ¬Opened platform calls (progPinLoc locationPrefix objName cs.name)

/-- The program is for another kernel, or is found pinned and opened. -/
def CodeSection.PassedOver (cs : CodeSection) : Prop :=
  ∃ progDef ∈ cs.progDef, progDef.inRange platform = true →
    Found platform pins calls (progPinLoc locationPrefix objName cs.name) ∧
    Opened platform calls (progPinLoc locationPrefix objName cs.name)

/-- The program is for this kernel, and is not found pinned. -/
def CodeSection.ToLoad (cs : CodeSection) : Prop :=
  ∃ progDef ∈ cs.progDef, progDef.inRange platform = true ∧
    ¬Found platform pins calls (progPinLoc locationPrefix objName cs.name)

/-- The calls once a section is passed over. -/
def CodeSection.asks (cs : CodeSection) : List Syscall :=
  let opened := calls ++ [.access (progPinLoc locationPrefix objName cs.name)] ++
    [.objGet (progPinLoc locationPrefix objName cs.name)]
  if cs.progDef.any (·.inRange platform) then opened ++ [.idInfo (platform.newFd opened)] else calls

def asked (css : List CodeSection) : List Syscall :=
  css.foldl (fun calls cs => cs.asks platform locationPrefix objName calls) calls

end Turn

section First
variable {platform : Platform} {locationPrefix objName : List UInt8} {pins : Path → Option Node} {calls : List Syscall}
  {cs cs' : CodeSection} {css css' : List CodeSection} {p : List Syscall → CodeSection → Prop}

end First

/-- What a turn from a state comes to: an error, a section that is passed over, or a `BPF_PROG_LOAD`. -/
inductive Turn (platform : Platform) (locationPrefix objName : List UInt8) (cs : CodeSection) (w : World)
    (run : EStateM.Result Stop World CodeSection) : Prop where
  | stops (code : Ret) (w' : World) (cause : cs.Stops platform locationPrefix objName w.pins w.calls)
      (result : run = .error (.ret code) w') (quiet : Grows (·.isProgLoad = false) w w')
  | passes (cs' : CodeSection) (w' : World) (cause : cs.PassedOver platform locationPrefix objName w.pins w.calls)
      (result : run = .ok cs' w') (quiet : Grows (·.isProgLoad = false) w w')
      (calls : w'.calls = cs.asks platform locationPrefix objName w.calls) (pins : w'.pins = w.pins)
  | loads (cause : cs.ToLoad platform locationPrefix objName w.pins w.calls) (loaded : Loads w (after run))

section Programs
variable {platform : Platform} {objName license locationPrefix : List UInt8} {path : Path} {fd : Int} {node : Node} {w : World}

theorem run_bpfGetFdId :
    (bpfGetFdId platform fd).run w = .ok ⟨⟩ { w with calls := w.calls ++ [.idInfo fd] } := by
  rw [bpfGetFdId, EStateM.run_bind, run_syscall]
  dsimp only
  cases platform.fails (w.calls ++ [.idInfo fd]) <;> rfl

end Programs

/-! ### The pins of programs -/

section Paths
variable {platform : Platform} {elfPath elfFile locationPrefix objName name : List UInt8} {w w' : World}

end Paths

/-! ### Relocation always comes back -/

def Good (w : World) : Prop := w.failbit = false

/-- The program succeeds, and leaves the stream good. -/
abbrev Returns {α : Type} (x : Prog α) : Prop := Succeeds Good x fun _ => Good

/-- The same where failing with a return code is a result too. -/
abbrev Settles {α : Type} (x : Prog α) : Prop := Returns (tried x)

section Settles
variable {platform : Platform} {elfFile : List UInt8} {α β : Type}

theorem Gives.returns {x : Prog α} {a : α} (h : Gives x a) : Returns x := fun w hw => ⟨a, w, h w hw, hw⟩

theorem Settles.bind {x : Prog α} {f : α → Prog β} (hx : Settles x) (hf : ∀ a, Settles (f a)) : Settles (x >>= f) := by
  intro w hw
  obtain ⟨r, u, hrun, hgood⟩ := hx w hw
  rcases tried_eq_ok.mp hrun with ⟨a, rfl, ha⟩ | ⟨code, rfl, hcode⟩
  · obtain ⟨r', w', hrun', hgood'⟩ := hf a u hgood
    refine ⟨r', w', ?_, hgood'⟩
    rcases tried_eq_ok.mp hrun' with ⟨b, rfl, hb⟩ | ⟨code, rfl, hcode⟩
    · exact tried_eq_ok.mpr (Or.inl ⟨b, rfl, bind_eq_ok.mpr ⟨a, u, ha, hb⟩⟩)
    · exact tried_eq_ok.mpr (Or.inr ⟨code, rfl, bind_eq_error.mpr (Or.inr ⟨a, u, ha, hcode⟩)⟩)
  · exact ⟨.error code, u, tried_eq_ok.mpr (Or.inr ⟨code, rfl, bind_eq_error.mpr (Or.inl hcode)⟩), hgood⟩

variable {mapFds : List Int} {w : World} (h : MapsReady platform elfFile mapFds w)
include h

end Settles

/-! ### The run of an object -/

section Spec
variable (fdOf : Elf64Rel → Option Int)

end Spec

section Entries
variable {elfFile : List UInt8} {maps : List (List UInt8 × Int)} {fdOf : Elf64Rel → Option Int} {css : List CodeSection}
  {cs : CodeSection}

end Entries

section Run
variable {platform : Platform} {elfPath elfFile license : List UInt8} {location : Location} {w w₁ w₂ w₃ : World}
  {css : List CodeSection} {mapFds : List Int} (hready : MapsReady platform elfFile mapFds w₃)
  (hlicense : (readLicense platform elfFile).run { w with isCritical := false } = .ok license w₁)
  (hcode : (readCodeSections platform elfFile location.allowedProgTypes).run w₁ = .ok css w₂)
  (hcreate : (createMaps platform elfFile elfPath location.locationPrefix).run w₂ = .ok mapFds w₃)
include hready hlicense hcode hcreate

end Run

/-- An object with a map and a program that loads it twice, whose first relocation has this symbol. -/
def relocatedObject (symIndex : Nat) : List UInt8 :=
  let strings := [".strtab", "license", "maps", "progs", "uprobe/p", ".reluprobe/p", ".symtab", "p_def", "p", "m"]
  image strings [
    ⟨"license", 1, Text.utf8 "GPL" ++ [0]⟩,
    ⟨"maps", 1, hashMapDef.encode⟩,
    ⟨"progs", 1, BpfProgDef.encode ⟨0, 0, 0, 0xFFFFFFFF, false⟩⟩,
    ⟨"uprobe/p", 1, loadInsn.encode ++ List.replicate 8 0 ++ loadInsn.encode ++ List.replicate 8 0⟩,
    ⟨".reluprobe/p", 9, Elf64Rel.encode ⟨0, symIndex * 2 ^ 32⟩ ++ Elf64Rel.encode ⟨16, 2 * 2 ^ 32⟩⟩,
    ⟨".symtab", shtSymtab, Elf64Sym.encode ⟨nameOffset strings "p_def", 1, 3, 0⟩ ++
      Elf64Sym.encode ⟨nameOffset strings "p", sttFunc, 4, 0⟩ ++ Elf64Sym.encode ⟨nameOffset strings "m", 1, 2, 0⟩⟩]

instance (elfFile : List UInt8) (css : List CodeSection) : Decidable (FitsInt elfFile css) :=
  decidable_of_iff ((symbolsOf elfFile).length < 2 ^ 31 ∧ css.length < 2 ^ 31 ∧
      (∀ cs ∈ css, cs.relData.length / 16 < 2 ^ 31) ∧
      ∀ cs ∈ css, ∀ rel ∈ relocationsOf cs.relData, rel.rOffset / 8 < 2 ^ 31)
    ⟨fun ⟨hs, hc, hr, hi⟩ => ⟨hs, hc, hr, hi⟩, fun ⟨hs, hc, hr, hi⟩ => ⟨hs, hc, hr, hi⟩⟩

end UprobeStats.BpfLoad
