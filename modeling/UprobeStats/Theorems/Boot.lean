import UprobeStats.Theorems.DefinitionLabels
import UprobeStats.Theorems.Reload

/-! Runs of the loader as a process: what it hands to the platform's loader, what its reports say of the objects, and
    what a second run of it changes. -/

namespace UprobeStats.BpfLoad
open Effect

/-! ### The directory of the pins -/

def Location.pinDir (location : Location) : Path := bpfFsPath ++ location.locationPrefix

/-- `mkdir` does not make the directory of the location, and not for the reason that it is there. -/
def Machine.Refuses (machine : Machine) (location : Location) : Prop :=
  ∃ err, machine.mkdirFails location.pinDir = some err ∧ err ≠ eexist

/-- The directories once that of the location is made, with every permission and the sticky bit. -/
def Machine.dirsWith (machine : Machine) (location : Location) (dirs : Path → Option UInt32) : Path → Option UInt32 :=
  if machine.mkdirFails location.pinDir = none ∧ dirs location.pinDir = none then
    Function.update dirs location.pinDir (some 0o1777)
  else dirs

section Directory
variable {machine : Machine} {location : Location} {b b' : Boot}

theorem createSysFsBpfSubDir_of_refuses (hnonempty : location.locationPrefix ≠ []) {err : Errno}
    (h : machine.mkdirFails location.pinDir = some err) (hne : err ≠ eexist) :
    (createSysFsBpfSubDir machine location.locationPrefix).run b = .ok (some (minus err)) { b with umask := 0 } := by
  have hmkdir (c : Boot) : (mkdir machine location.pinDir 0o1777).run c = .ok (.error err) c := by
    rw [mkdir, run_get_bind, h]
    rfl
  rw [createSysFsBpfSubDir, if_neg hnonempty]
  refine bind_eq_ok.mpr ⟨b.umask, _, rfl, bind_eq_ok.mpr ⟨.error err, _, hmkdir _, ?_⟩⟩
  dsimp only
  rw [if_pos hne]
  rfl

/-- The umask is put back, and has no part in the mode of the directory. -/
theorem createSysFsBpfSubDir_of_not_refuses (hnonempty : location.locationPrefix ≠ []) (h : ¬machine.Refuses location) :
    (createSysFsBpfSubDir machine location.locationPrefix).run b =
      .ok none { b with dirs := machine.dirsWith location b.dirs } := by
  have hmkdir (c : Boot) (hmask : c.umask = 0) (hdirs : c.dirs = b.dirs) : ∃ result,
      (mkdir machine location.pinDir 0o1777).run c = .ok result { c with dirs := machine.dirsWith location b.dirs } ∧
        (result = .ok () ∨ result = .error eexist) := by
    rw [mkdir, run_get_bind, Machine.dirsWith, hdirs]
    cases hfails : machine.mkdirFails location.pinDir with
    | some err =>
      have heq : err = eexist := by
        by_contra hne
        exact h ⟨err, hfails, hne⟩
      rw [if_neg (by simp)]
      exact ⟨.error err, by rw [← hdirs]; rfl, .inr (by rw [heq])⟩
    | none =>
      cases hdir : b.dirs location.pinDir with
      | some mode =>
        rw [if_neg (by simp)]
        exact ⟨.error eexist, by rw [← hdirs]; rfl, .inr rfl⟩
      | none =>
        rw [if_pos ⟨rfl, rfl⟩]
        refine ⟨.ok (), ?_, .inl rfl⟩
        rw [hmask]
        rfl
  obtain ⟨result, hrun, hresult⟩ := hmkdir { b with umask := 0 } rfl rfl
  rw [createSysFsBpfSubDir, if_neg hnonempty]
  refine bind_eq_ok.mpr ⟨b.umask, _, rfl, bind_eq_ok.mpr ⟨result, _, hrun, ?_⟩⟩
  rcases hresult with rfl | rfl
  · rfl
  · dsimp only
    rw [if_neg (not_not_intro rfl)]
    rfl

theorem dirsWith_again (dirs : Path → Option UInt32) :
    machine.dirsWith location (machine.dirsWith location dirs) = machine.dirsWith location dirs := by
  by_cases h : machine.mkdirFails location.pinDir = none ∧ dirs location.pinDir = none
  · rw [Machine.dirsWith, if_neg]
    rw [Machine.dirsWith, if_pos h, Function.update_self]
    simp
  · have hsame : machine.dirsWith location dirs = dirs := if_neg h
    rw [hsame, hsame]

end Directory

/-! ### Reports -/

/-- The section has the definition that is labelled for its first function, and when this has to run here the program
    is pinned at the path of the section. -/
def Elf64Shdr.Pinned (platform : Platform) (file : List UInt8) (defs : List (List UInt8 × BpfProgDef))
    (locationPrefix objName : List UInt8) (pins : Path → Option Node) (sh : Elf64Shdr) : Prop :=
  ∃ name sym progDef, nameAt file sh.shName = some name ∧ FirstFunction file name sym ∧
    defs.lookup (nameOf file sym ++ Text.utf8 "_def") = some progDef ∧
    (progDef.optional = false → progDef.inRange platform = true →
      (pins (progPinLoc locationPrefix objName (name.map fun b => if b = 47 then 95 else b))).isSome)

theorem Elf64Shdr.Pinned.mono {platform : Platform} {file : List UInt8} {defs : List (List UInt8 × BpfProgDef)}
    {locationPrefix objName : List UInt8} {pins pins' : Path → Option Node} {sh : Elf64Shdr}
    (h : sh.Pinned platform file defs locationPrefix objName pins)
    (hpins : ∀ path, (pins path).isSome → (pins' path).isSome) :
    sh.Pinned platform file defs locationPrefix objName pins' := by
  obtain ⟨name, sym, progDef, hname, hfirst, hdef, hpinned⟩ := h
  exact ⟨name, sym, progDef, hname, hfirst, hdef, fun hmandatory hrange => hpins _ (hpinned hmandatory hrange)⟩

section Reports
variable {platform : Platform} {location : Location} {w w' : World}

instance : ReadFrame SameCritical where
  failbit _ := rfl
  stray _ := rfl

end Reports

/-! ### The whole process -/

section Process
variable {machine : Machine} {b b' : Boot} {reports : List Report}

theorem prefix_ne_nil : uprobestatsLocation.locationPrefix ≠ [] := by decide

theorem onWorld_eq_ok {α : Type} {x : Prog α} {a : α} :
    (onWorld x).run b = .ok a b' ↔ ∃ w', x.run b.world = .ok a w' ∧ { b with world := w' } = b' := by
  show onWorld x b = .ok a b' ↔ _
  rw [onWorld]
  cases x.run b.world <;> simp

/-- Where the directory cannot be made no object is touched, and the umask stays cleared. -/
theorem main_of_refuses (h : machine.Refuses uprobestatsLocation) :
    (main machine).run b = .ok [] { b with umask := 0, execve := some platformBpfLoader } := by
  obtain ⟨err, hfails, hne⟩ := h
  have hdir := createSysFsBpfSubDir_of_refuses (b := b) prefix_ne_nil hfails hne
  have hdirs : (createBpfFsSubDirectories machine locations).run b = .ok true { b with umask := 0 } :=
    bind_eq_ok.mpr ⟨_, _, hdir, rfl⟩
  exact bind_eq_ok.mpr ⟨[], _, bind_eq_ok.mpr ⟨true, _, hdirs, rfl⟩, rfl⟩

section Made
variable (h : ¬machine.Refuses uprobestatsLocation)
include h

theorem createBpfFsSubDirectories_of_not_refuses : (createBpfFsSubDirectories machine locations).run b =
    .ok false { b with dirs := machine.dirsWith uprobestatsLocation b.dirs } :=
  bind_eq_ok.mpr ⟨none, _, createSysFsBpfSubDir_of_not_refuses prefix_ne_nil h, rfl⟩

/-- Else the run is that over the objects. -/
theorem main_eq_ok : (main machine).run b = .ok reports b' ↔ ∃ retVal w',
    (loadAllElfObjects machine.platform uprobestatsLocation (machine.opendir uprobestatsLocation.dir)).run b.world =
      .ok (retVal, reports) w' ∧
    { b with
      world := w'
      dirs := machine.dirsWith uprobestatsLocation b.dirs
      execve := some platformBpfLoader } = b' := by
  constructor
  · intro hmain
    obtain ⟨_, b₁, hload, hrest⟩ := bind_eq_ok.mp hmain
    obtain ⟨failed, b₂, hdirs, hload⟩ := bind_eq_ok.mp hload
    rw [createBpfFsSubDirectories_of_not_refuses h] at hdirs
    cases hdirs
    obtain ⟨⟨retVal, rs⟩, b₃, hworld, hload⟩ := bind_eq_ok.mp hload
    obtain ⟨w', hrun, rfl⟩ := onWorld_eq_ok.mp hworld
    cases hload
    cases hrest
    exact ⟨retVal, w', by rw [List.append_nil]; exact hrun, rfl⟩
  · rintro ⟨retVal, w', hrun, rfl⟩
    refine bind_eq_ok.mpr ⟨reports, { b with world := w', dirs := machine.dirsWith uprobestatsLocation b.dirs },
      bind_eq_ok.mpr ⟨false, _, createBpfFsSubDirectories_of_not_refuses h, ?_⟩, rfl⟩
    refine bind_eq_ok.mpr ⟨(retVal, reports), _, onWorld_eq_ok.mpr ⟨w', hrun, rfl⟩, bind_eq_ok.mpr ⟨[], _, rfl, ?_⟩⟩
    exact pure_eq_ok.mpr ⟨List.append_nil _, rfl⟩

/-- A run that has reported no failure goes through again, and only opens. -/
theorem rerun_main {c : Boot} (hmain : (main machine).run b = .ok reports b')
    (hrets : ∀ report ∈ reports, report.ret = none) (hstrays : b'.world.strays = b.world.strays)
    (hexcused : Unexcused machine.platform b.world b'.world) (hkeeps : Keeps b'.world c.world) (hdirs : c.dirs = b'.dirs)
    (hquiet : Quiet machine.platform c.world.calls) :
    ∃ c', (main machine).run c = .ok reports c' ∧ c'.dirs = c.dirs ∧ Reopens c.world c'.world := by
  obtain ⟨retVal, w', hrun, rfl⟩ := (main_eq_ok h).mp hmain
  obtain ⟨u', hrun', hopens⟩ := rerun_loadAllElfObjects hrun hrets hstrays hexcused hkeeps hquiet
  exact ⟨_, (main_eq_ok h).mpr ⟨retVal, u', hrun', rfl⟩, by rw [hdirs]; exact dirsWith_again _, hopens⟩

end Made

end Process

/-- A machine with one object, which has a map and a program, next to another file. -/
def smallMachine : Machine where
  platform := quietPlatform
  mkdirFails _ := none
  opendir _ := some [⟨Text.utf8 "a.o", some (relocatedObject 2)⟩, ⟨Text.utf8 "README", none⟩]

/-- Loading twice is loading once. After a run that reported no failure, read nothing outside of a buffer and excused no
    failed call, a run in a kernel that still has its pins, where no call that only opens fails, reports the same,
    changes no pin and no directory, and creates, loads and pins nothing. -/
theorem main_idempotent {machine : Machine} {b b' c : Boot} {reports : List Report}
    (hmain : (main machine).run b = .ok reports b') (hrets : ∀ report ∈ reports, report.ret = none)
    (hstrays : b'.world.strays = b.world.strays) (hexcused : Unexcused machine.platform b.world b'.world)
    (hpins : ∀ path, (b'.world.pins path).isSome → c.world.pins path = b'.world.pins path) (hdirs : c.dirs = b'.dirs)
    (hquiet : Quiet machine.platform c.world.calls) :
    ∃ c', (main machine).run c = .ok reports c' ∧ c'.dirs = c.dirs ∧ c'.world.pins = c.world.pins ∧
      ∃ calls, c'.world.calls = c.world.calls ++ calls ∧ ∀ call ∈ calls, call.opens = true := by
  by_cases h : machine.Refuses uprobestatsLocation
  · rw [main_of_refuses h] at hmain
    cases hmain
    exact ⟨_, main_of_refuses h, rfl, rfl, [], by simp⟩
  · obtain ⟨c', hrun, hdirs', hpins', hcalls⟩ := rerun_main h hmain hrets hstrays hexcused hpins hdirs hquiet
    exact ⟨c', hrun, hdirs', hpins', hcalls⟩

theorem main_idempotent_small : ∃ reports b' c', (main smallMachine).run { umask := 0o22 } = .ok reports b' ∧
    reports ≠ [] ∧ (main smallMachine).run { b' with umask := 0o77 } = .ok reports c' ∧ c'.world.pins = b'.world.pins := by
  have hok : ((value? ((main smallMachine).run { umask := 0o22 })).any fun reports =>
      reports ≠ [] ∧ ∀ report ∈ reports, report.ret = none) = true := by decide +kernel
  have hstrays : (after ((main smallMachine).run { umask := 0o22 })).world.strays = 0 := by decide +kernel
  obtain ⟨reports, b', hrun, hboth⟩ := exists_of_any_value? hok
  obtain ⟨hne, hrets⟩ := of_decide_eq_true hboth
  rw [hrun] at hstrays
  obtain ⟨c', hrun', -, hpins, -⟩ := main_idempotent (c := { b' with umask := 0o77 }) hrun hrets hstrays
    (fun _ _ _ _ _ => rfl) (fun _ _ => rfl) rfl (fun _ _ _ _ => rfl)
  exact ⟨reports, b', c', hrun, hne, hrun', hpins⟩

end UprobeStats.BpfLoad
