import UprobeStats.BitmapPrograms
import UprobeStats.Theorems.BitmapAccounting
import UprobeStats.Theorems.Requests

/-! Which records are reported as allocations. The handler of version 0 takes every record for an allocation,
    and that of version 1 goes by a type that `bitmap_creation` does not set. -/

namespace UprobeStats
open Rust Effect

/-! ### Calls of the handlers -/

def SameCalls {H T : Type} (s t : Session H T) : Prop := t.calls = s.calls

section Calls
variable {H T α : Type}

instance : Std.Refl (SameCalls (H := H) (T := T)) := ⟨fun _ => rfl⟩

instance : IsTrans (Session H T) SameCalls := ⟨fun _ _ _ hst htu => Eq.trans htu hst⟩

theorem sameCalls_modifyHandler (f : H → H) : Within (SameCalls (H := H) (T := T)) (modifyHandler f) :=
  .modify fun _ => rfl

theorem calls_call_bind {c : Call} {answer : List Call → Except Error Unit} {k : Unit → Handling H T α}
    (hk : ∀ u, Within SameCalls (k u)) (s : Session H T) : (after ((call c answer >>= k).run s)).calls = s.calls ++ [c] := by
  have hcall := after_call c answer s
  rw [EStateM.run_bind]
  cases hrun : (call c answer).run s with
  | ok u t =>
    rw [hrun, after_ok] at hcall
    exact (hk u t).trans (by rw [hcall])
  | error e t =>
    rw [hrun, after_error] at hcall
    rw [after_error, hcall]

theorem run_handItem {h : Handler H T} {env : Env} {task : ResolvedTask} {item : T} (s : Session H T) :
    (handItem h env task item).run s = (h.onItem env task item).run { s with handed := s.handed ++ [item] } := rfl

end Calls

theorem tryI32_of_lt {n : Nat} (h : n < 2 ^ 31) : tryI32 n = .ok (Int32.ofInt n) := if_pos (by omega)

theorem tryI32_of_ge {n : Nat} (h : ¬n < 2 ^ 31) : tryI32 n = .error .tryFromInt := if_neg (by omega)

/-- The atom of an allocation. -/
def allocated (uid : Int32) (width height : UInt32) : Call :=
  .statsWrite (.bitmapAllocated uid (Int32.ofInt width.toNat) (Int32.ofInt height.toNat))

section Handlers
variable {env : Env} {task : ResolvedTask} {data : BitmapAllocation}

theorem calls_v0 (h : data.width.toNat < 2 ^ 31 ∧ data.height.toNat < 2 ^ 31) (s : Session Unit BitmapAllocation) :
    (after ((BitmapAllocationHandlerV0.onItem env task data).run s)).calls =
      s.calls ++ [allocated task.uid data.width data.height] := by
  rw [BitmapAllocationHandlerV0.onItem, run_lift_bind_of_ok (tryI32_of_lt h.1), run_lift_bind_of_ok (tryI32_of_lt h.2),
    statsWrite, after_call]
  rfl

theorem calls_v0_of_large (h : ¬(data.width.toNat < 2 ^ 31 ∧ data.height.toNat < 2 ^ 31))
    (s : Session Unit BitmapAllocation) :
    (after ((BitmapAllocationHandlerV0.onItem env task data).run s)).calls = s.calls := by
  rw [BitmapAllocationHandlerV0.onItem]
  by_cases hwidth : data.width.toNat < 2 ^ 31
  · rw [run_lift_bind_of_ok (tryI32_of_lt hwidth), after_lift_bind_of_error (tryI32_of_ge fun hheight => h ⟨hwidth, hheight⟩)]
  · rw [after_lift_bind_of_error (tryI32_of_ge hwidth)]

/-- A record of type 0 whose numbers fit is reported. -/
theorem calls_v1 (htype : data.type = 0) (h : data.width.toNat < 2 ^ 31 ∧ data.height.toNat < 2 ^ 31)
    (hpixel : data.pixelStorageType.toNat < 2 ^ 31) (s : Session BitmapAllocationHandlerV1 BitmapAllocation) :
    (after ((BitmapAllocationHandlerV1.onItem env task data).run s)).calls =
      s.calls ++ [allocated task.uid data.width data.height] := by
  rw [BitmapAllocationHandlerV1.onItem, if_pos htype, BitmapAllocationHandlerV1.onAllocation, run_get_bind,
    run_lift_bind_of_ok (tryI32_of_lt h.1), run_lift_bind_of_ok (tryI32_of_lt h.2), run_lift_bind_of_ok (tryI32_of_lt hpixel)]
  refine calls_call_bind (fun _ => ?_) s
  refine (sameCalls_modifyHandler _).bind fun _ => (Within.lift _).bind fun _ => Within.get.bind fun _ => ?_
  exact (Within.lift _).bind fun _ => (sameCalls_modifyHandler _).bind fun _ => sameCalls_modifyHandler _

theorem calls_v1_of_other (h : data.type ≠ 0) : Within SameCalls (BitmapAllocationHandlerV1.onItem env task data) := by
  rw [BitmapAllocationHandlerV1.onItem, if_neg h]
  split
  · refine (sameCalls_modifyHandler _).bind fun _ => (Within.lift _).bind fun _ => Within.get.bind fun _ => ?_
    exact (Within.lift _).bind fun _ => sameCalls_modifyHandler _
  · split
    · exact (Within.lift _).bind fun _ => sameCalls_modifyHandler _
    · exact .pure _

theorem calls_v1_of_large (htype : data.type = 0) (h : data.width.toNat < 2 ^ 31 ∧ data.height.toNat < 2 ^ 31)
    (hpixel : ¬data.pixelStorageType.toNat < 2 ^ 31) (s : Session BitmapAllocationHandlerV1 BitmapAllocation) :
    (after ((BitmapAllocationHandlerV1.onItem env task data).run s)).calls = s.calls := by
  rw [BitmapAllocationHandlerV1.onItem, if_pos htype, BitmapAllocationHandlerV1.onAllocation, run_get_bind,
    run_lift_bind_of_ok (tryI32_of_lt h.1), run_lift_bind_of_ok (tryI32_of_lt h.2), after_lift_bind_of_error (tryI32_of_ge hpixel)]

end Handlers

/-! ### Records of the programs -/

namespace ProgramFiring

def width (x : ProgramFiring) : UInt32 := (x.firing.ctx.regs 4).toUInt32

def height (x : ProgramFiring) : UInt32 := (x.firing.ctx.regs 5).toUInt32

/-- What is read as the pixel storage type of the bitmap that is created. -/
def pixelStorageType (x : ProgramFiring) : UInt32 :=
  load32 x.firing.mem 0x78 (load64 x.firing.mem 0 (x.firing.ctx.regs 3))

/-- The calls that are due for a record: one atom for a creation. -/
def due (uid : Int32) (x : ProgramFiring) : List Call :=
  if x.program.creates then [allocated uid x.width x.height] else []

/-- With snapshots a creation has a record of type 0, and a pixel storage type that fits; without them the
    slot of an activity record held a width or a height that does not. -/
def Told (flags : Flags) (x : ProgramFiring) : Prop :=
  if flags.enableBitmapSnapshot then
    x.program.creates = true →
      (x.program = .bitmapCreation → x.firing.slot.type = 0) ∧ x.pixelStorageType.toNat < 2 ^ 31
  else x.program = .activityPerformStart →
    ¬(x.firing.slot.width.toNat < 2 ^ 31 ∧ x.firing.slot.height.toNat < 2 ^ 31)

section Records
variable {x : ProgramFiring} {r : BitmapAllocation} {active : ActiveBitmaps}

theorem record_of_creates (h : (x.fire active).1 = some r) (hcreates : x.program.creates = true) :
    r.width = x.width ∧ r.height = x.height ∧ r.pixelStorageType = x.pixelStorageType ∧
      r.type = if x.program = .bitmapCreation then x.firing.slot.type else 0 := by
  obtain ⟨program, firing, reserved⟩ := x
  cases program <;> cases reserved <;> cases hcreates <;> cases h <;> exact ⟨rfl, rfl, rfl, rfl⟩

theorem record_of_applyFreeFunction (h : (x.fire active).1 = some r) (hprogram : x.program = .applyFreeFunction) :
    r.type = 1 := by
  obtain ⟨program, firing, reserved⟩ := x
  subst hprogram
  simp only [fire, BitmapProgram.run, applyFreeFunction] at h
  split at h
  · cases h
  · cases reserved
    · cases h
    · cases h
      rfl

theorem record_of_activityPerformStart (h : (x.fire active).1 = some r) (hprogram : x.program = .activityPerformStart) :
    r.type = 2 ∧ r.width = x.firing.slot.width ∧ r.height = x.firing.slot.height := by
  obtain ⟨program, firing, reserved⟩ := x
  subst hprogram
  cases reserved <;> cases h
  exact ⟨rfl, rfl, rfl⟩

theorem mem_submitted : ∀ {firings : List ProgramFiring} {active : ActiveBitmaps},
    (x, r) ∈ submitted active firings → x ∈ firings ∧ ∃ active', (x.fire active').1 = some r
  | [], _, h => by cases h
  | y :: firings, active, h => by
    rcases List.mem_append.mp h with h | h
    · obtain ⟨r', hr', heq⟩ := List.mem_map.mp h
      cases heq
      exact ⟨List.mem_cons_self .., active, Option.mem_toList.mp hr'⟩
    · obtain ⟨hx, hactive⟩ := mem_submitted h
      exact ⟨List.mem_cons_of_mem _ hx, hactive⟩

end Records
end ProgramFiring

/-! ### Attached programs -/

section Attached
variable {dev : Device} {task : ResolvedTask} {ps : List ResolvedProbe} {w w' : World}

theorem prefixBpf_inj {path path' : String} (h : prefixBpf path = prefixBpf path') : path = path' := by
  unfold prefixBpf at h
  exact (String.append_right_inj _).mp h

/-- Every program that is attached is enabled by the flags. -/
theorem enabled_of_resolveProbes (h : (resolveProbes dev task).run w = .ok ps w') :
    ∀ p ∈ ps, ∃ bpfName, p.bpfProgramPath = prefixBpf bpfName ∧ isBpfFileEnabled dev.flags bpfName = true := by
  have hprobes : Triple (fun _ => True) (resolveProbes dev task) (fun ps _ => True ∧ ∀ p ∈ ps,
      ∃ bpfName, p.bpfProgramPath = prefixBpf bpfName ∧ isBpfFileEnabled dev.flags bpfName = true) fun _ => True := by
    refine Triple.onError (Triple.mapM fun probe _ done v hv => ?_)
    cases hrun : (resolveProbe dev task probe).run v with
    | error e u => trivial
    | ok p u =>
      obtain ⟨bpfName, -, hrun⟩ := bind_lift_eq_ok.mp hrun
      obtain ⟨_, henabled, hrun⟩ := bind_lift_eq_ok.mp hrun
      refine ⟨trivial, ⟨bpfName, ?_, ensure_eq_ok.mp henabled⟩, hv.2⟩
      cases hclass : probe.fullyQualifiedClassName with
      | none =>
        rw [hclass] at hrun
        exact (resolveByOatdump_ok hrun).2
      | some className =>
        rw [hclass] at hrun
        obtain ⟨p', _, hresolve, hrun⟩ := bind_eq_ok.mp hrun
        obtain ⟨_, _, -, hrun⟩ := bind_eq_ok.mp hrun
        obtain ⟨rfl, -⟩ := pure_eq_ok.mp hrun
        exact (resolveByOffsetsApi_ok hresolve).2.1
  exact (hprobes.ok trivial h).2

theorem isBpfFileEnabled_forSnapshot (flags : Flags) {program : BitmapProgram}
    (h : program = .bitmapCreationForSnapshot ∨ program = .applyFreeFunction) :
    isBpfFileEnabled flags program.name = flags.enableBitmapSnapshot := by
  rcases h with rfl | rfl <;> rw [isBpfFileEnabled, if_neg (by decide +kernel), if_pos (by decide +kernel)]

/-- Without snapshots only two of the programs can be attached. -/
theorem attached_without_snapshot (h : (resolveProbes dev task).run w = .ok ps w')
    (hflag : dev.flags.enableBitmapSnapshot = false) {program : BitmapProgram} (hattached : Attached ps program) :
    program = .bitmapCreation ∨ program = .activityPerformStart := by
  obtain ⟨p, hp, hpath⟩ := hattached
  obtain ⟨bpfName, hname, henabled⟩ := enabled_of_resolveProbes h p hp
  obtain rfl : bpfName = program.name := prefixBpf_inj (hname.symm.trans hpath)
  have hnot : ¬(program = .bitmapCreationForSnapshot ∨ program = .applyFreeFunction) := by
    intro hsnapshot
    rw [isBpfFileEnabled_forSnapshot _ hsnapshot, hflag] at henabled
    cases henabled
  cases program with
  | bitmapCreation => exact .inl rfl
  | activityPerformStart => exact .inr rfl
  | bitmapCreationForSnapshot => exact absurd (.inl rfl) hnot
  | applyFreeFunction => exact absurd (.inr rfl) hnot

end Attached

/-! ### The registered handler -/

section Reports
variable {flags : Flags} {env : Env} {task : ResolvedTask} {x : ProgramFiring} {r : BitmapAllocation}
  {active : ActiveBitmaps}

theorem due_of_creates (h : x.program.creates = true) (uid : Int32) : x.due uid = [allocated uid x.width x.height] :=
  if_pos h

theorem due_of_not_creates (h : ¬x.program.creates = true) (uid : Int32) : x.due uid = [] := if_neg h

/-- With snapshots a record gets the calls that are due exactly when it is told. -/
theorem reports_v1 (hflag : flags.enableBitmapSnapshot = true) (hfire : (x.fire active).1 = some r)
    (hsize : x.program.creates = true → x.width.toNat < 2 ^ 31 ∧ x.height.toNat < 2 ^ 31)
    (s : Session BitmapAllocationHandlerV1 BitmapAllocation) :
    (after ((BitmapAllocationHandlerV1.onItem env task r).run s)).calls = s.calls ++ x.due task.uid ↔ x.Told flags := by
  rw [ProgramFiring.Told, if_pos hflag]
  by_cases hcreates : x.program.creates = true
  · obtain ⟨hwidth, hheight, hpixel, htype⟩ := ProgramFiring.record_of_creates hfire hcreates
    have hfits := hsize hcreates
    have hzero : r.type = 0 ↔ (x.program = .bitmapCreation → x.firing.slot.type = 0) := by
      rw [htype]
      by_cases hprogram : x.program = .bitmapCreation <;> simp [hprogram]
    rw [due_of_creates hcreates, ← hzero, ← hpixel, imp_iff_right hcreates, ← hwidth, ← hheight]
    rw [← hwidth, ← hheight] at hfits
    by_cases hr : r.type = 0
    · by_cases hsmall : r.pixelStorageType.toNat < 2 ^ 31
      · exact iff_of_true (calls_v1 hr hfits hsmall s) ⟨hr, hsmall⟩
      · rw [calls_v1_of_large hr hfits hsmall]
        exact iff_of_false (by simp) fun h => hsmall h.2
    · have hsame : (after ((BitmapAllocationHandlerV1.onItem env task r).run s)).calls = s.calls := calls_v1_of_other hr s
      rw [hsame]
      exact iff_of_false (by simp) fun h => hr h.1
  · have hr : r.type ≠ 0 := by
      rcases hprogram : x.program with _ | _ | _ | _
      · exact absurd (by rw [hprogram]; rfl) hcreates
      · exact absurd (by rw [hprogram]; rfl) hcreates
      · rw [ProgramFiring.record_of_applyFreeFunction hfire hprogram]
        decide
      · rw [(ProgramFiring.record_of_activityPerformStart hfire hprogram).1]
        decide
    rw [due_of_not_creates hcreates, List.append_nil]
    exact iff_of_true (calls_v1_of_other hr s) fun h => absurd h hcreates

/-- Without snapshots so does a record of a program that can be attached. -/
theorem reports_v0 (hflag : flags.enableBitmapSnapshot = false) (hfire : (x.fire active).1 = some r)
    (hprogram : x.program = .bitmapCreation ∨ x.program = .activityPerformStart)
    (hsize : x.program.creates = true → x.width.toNat < 2 ^ 31 ∧ x.height.toNat < 2 ^ 31)
    (s : Session Unit BitmapAllocation) :
    (after ((BitmapAllocationHandlerV0.onItem env task r).run s)).calls = s.calls ++ x.due task.uid ↔ x.Told flags := by
  have hnot : ¬flags.enableBitmapSnapshot = true := by simp [hflag]
  rw [ProgramFiring.Told, if_neg hnot]
  rcases hprogram with hprogram | hprogram
  · have hcreates : x.program.creates = true := by rw [hprogram]; rfl
    obtain ⟨hwidth, hheight, -, -⟩ := ProgramFiring.record_of_creates hfire hcreates
    have hfits := hsize hcreates
    rw [← hwidth, ← hheight] at hfits
    rw [due_of_creates hcreates, ← hwidth, ← hheight, hprogram]
    exact iff_of_true (calls_v0 hfits s) fun h => by cases h
  · have hcreates : ¬x.program.creates = true := by simp [hprogram, BitmapProgram.creates]
    obtain ⟨-, hwidth, hheight⟩ := ProgramFiring.record_of_activityPerformStart hfire hprogram
    rw [due_of_not_creates hcreates, List.append_nil, imp_iff_right hprogram, ← hwidth, ← hheight]
    by_cases hfits : r.width.toNat < 2 ^ 31 ∧ r.height.toNat < 2 ^ 31
    · rw [calls_v0 hfits]
      exact iff_of_false (by simp) (not_not_intro hfits)
    · exact iff_of_true (calls_v0_of_large hfits s) hfits

theorem reports_handItem {dev : Device} {ps : List ResolvedProbe} {w w' : World}
    (hprobes : (resolveProbes dev task).run w = .ok ps w') (hattached : Attached ps x.program)
    (hsize : x.program.creates = true → x.width.toNat < 2 ^ 31 ∧ x.height.toNat < 2 ^ 31)
    (hfire : (x.fire active).1 = some r) (s : Session (registeredBitmapHandler dev.flags).1 BitmapAllocation) :
    (after ((handItem (registeredBitmapHandler dev.flags).2 env task r).run s)).calls = s.calls ++ x.due task.uid ↔
      x.Told dev.flags := by
  rw [run_handItem]
  revert s
  cases hflag : dev.flags.enableBitmapSnapshot with
  | false =>
    have hregistered : registeredBitmapHandler dev.flags = ⟨Unit, bitmapAllocationHandlerV0⟩ := by
      simp [registeredBitmapHandler, hflag]
    rw [hregistered]
    intro s
    exact reports_v0 hflag hfire (attached_without_snapshot hprobes hflag hattached) hsize _
  | true =>
    have hregistered : registeredBitmapHandler dev.flags = ⟨BitmapAllocationHandlerV1, bitmapAllocationHandlerV1⟩ := by
      simp [registeredBitmapHandler, hflag]
    rw [hregistered]
    intro s
    exact reports_v1 hflag hfire hsize _

theorem calls_of_told {H : Type} {h : Handler H BitmapAllocation} {u : PUnit} :
    ∀ {records : List (ProgramFiring × BitmapAllocation)} {s t : Session H BitmapAllocation},
      (∀ record ∈ records, ∀ s, (after ((handItem h env task record.2).run s)).calls = s.calls ++ record.1.due task.uid) →
      ((records.map (·.2)).forM (handItem h env task)).run s = .ok u t →
        t.calls = s.calls ++ records.flatMap (·.1.due task.uid)
  | [], s, t, _, hok => by
    obtain ⟨-, rfl⟩ := pure_eq_ok.mp hok
    simp
  | record :: records, s, t, htold, hok => by
    obtain ⟨hrecord, hrecords⟩ := List.forall_mem_cons.mp htold
    obtain ⟨v, hitem, hrest⟩ := forM_cons_eq_ok.mp hok
    have hv := hrecord s
    rw [hitem, after_ok] at hv
    rw [calls_of_told hrecords hrest, hv, List.flatMap_cons, List.append_assoc]

end Reports

/-- Under all flags, a record that a task's programs submit gets the calls that are due, one atom for a
    creation and none otherwise, exactly when it is told; and where all are told, these are all the calls
    that the registered handler makes for the records. -/
theorem reports_iff_told {dev : Device} {task : ResolvedTask} {ps : List ResolvedProbe} {w w' : World}
    (hprobes : (resolveProbes dev task).run w = .ok ps w') {firings : List ProgramFiring}
    (hattached : ∀ x ∈ firings, Attached ps x.program)
    (hsize : ∀ x ∈ firings, x.program.creates = true → x.width.toNat < 2 ^ 31 ∧ x.height.toNat < 2 ^ 31)
    (env : Env) (active : ActiveBitmaps) :
    (∀ x r, (x, r) ∈ ProgramFiring.submitted active firings →
      ∀ s : Session (registeredBitmapHandler dev.flags).1 BitmapAllocation,
        (after ((handItem (registeredBitmapHandler dev.flags).2 env task r).run s)).calls = s.calls ++ x.due task.uid ↔
          x.Told dev.flags) ∧
      ((∀ x ∈ firings, x.Told dev.flags) → ∀ s u t,
        (((ProgramFiring.submitted active firings).map (·.2)).forM
          (handItem (registeredBitmapHandler dev.flags).2 env task)).run s = .ok u t →
        t.calls = s.calls ++ (ProgramFiring.submitted active firings).flatMap (·.1.due task.uid)) := by
  have hitem : ∀ x r, (x, r) ∈ ProgramFiring.submitted active firings →
      ∀ s : Session (registeredBitmapHandler dev.flags).1 BitmapAllocation,
        (after ((handItem (registeredBitmapHandler dev.flags).2 env task r).run s)).calls = s.calls ++ x.due task.uid ↔
          x.Told dev.flags := by
    intro x r hmem s
    obtain ⟨hx, active', hfire⟩ := ProgramFiring.mem_submitted hmem
    exact reports_handItem hprobes (hattached x hx) (hsize x hx) hfire s
  refine ⟨hitem, fun htold s u t hok => calls_of_told (fun record hrecord s => ?_) hok⟩
  exact (hitem record.1 record.2 hrecord s).mpr (htold record.1 (ProgramFiring.mem_submitted hrecord).1)

/-! ### Records that are misread -/

def bitmapProbe (program : BitmapProgram) : ProbeConfig where
  bpfName := some program.name
  fullyQualifiedClassName := some "android.graphics.Bitmap"
  methodName := some "createBitmap"

/-- A device on which bitmaps are instrumented, with snapshots or without. -/
def bitmapDevice (snapshot : Bool) : Device :=
  { quietDevice {} with buildType := .ok (some "userdebug"), flags := { allFlags with enableBitmapSnapshot := snapshot } }

/-- The program fires on a slot that held a record of this type, of a bitmap of 7 by 8. -/
def firingOn (program : BitmapProgram) (staleType : UInt32) : ProgramFiring :=
  ⟨program, ⟨createCtx, bitmapMemory, 0x700000000, ⟨staleType, 7, 8, 1, 0, 0, .zeros 128⟩⟩, true⟩

theorem attached_of_any (dev : Device) (program : BitmapProgram)
    (h : ((value? ((resolveProbes dev (taskOf [bitmapProbe program])).run { interfaces := .empty })).any fun ps =>
      ps.any fun p => p.bpfProgramPath = prefixBpf program.name) = true) :
    ∃ ps w', (resolveProbes dev (taskOf [bitmapProbe program])).run { interfaces := .empty } = .ok ps w' ∧
      Attached ps program := by
  obtain ⟨ps, w', hrun, hany⟩ := exists_of_any_value? h
  obtain ⟨p, hp, hpath⟩ := List.any_eq_true.mp hany
  exact ⟨ps, w', hrun, p, hp, of_decide_eq_true hpath⟩

theorem attached_bitmapCreation : ∃ ps w',
    (resolveProbes (bitmapDevice true) (taskOf [bitmapProbe .bitmapCreation])).run { interfaces := .empty } = .ok ps w' ∧
      Attached ps .bitmapCreation :=
  attached_of_any (bitmapDevice true) .bitmapCreation (by decide +kernel)

/-- Without snapshots the start of an activity is reported as an allocation, and with them the creation of a
    bitmap is not when its slot held a free. -/
theorem misread_records :
    (∃ ps w' r, (resolveProbes (bitmapDevice false) (taskOf [bitmapProbe .activityPerformStart])).run
        { interfaces := .empty } = .ok ps w' ∧ Attached ps .activityPerformStart ∧
      ((firingOn .activityPerformStart 0).fire .empty).1 = some r ∧
      (after ((handItem (registeredBitmapHandler (bitmapDevice false).flags).2 quietEnv
          (taskOf [bitmapProbe .activityPerformStart]) r).run
        { handler := (registeredBitmapHandler (bitmapDevice false).flags).2.default })).calls = [allocated 1000 7 8]) ∧
    ∃ ps w' r, (resolveProbes (bitmapDevice true) (taskOf [bitmapProbe .bitmapCreation])).run
        { interfaces := .empty } = .ok ps w' ∧ Attached ps .bitmapCreation ∧
      ((firingOn .bitmapCreation 1).fire .empty).1 = some r ∧
      (after ((handItem (registeredBitmapHandler (bitmapDevice true).flags).2 quietEnv
          (taskOf [bitmapProbe .bitmapCreation]) r).run
        { handler := (registeredBitmapHandler (bitmapDevice true).flags).2.default })).calls = [] := by
  obtain ⟨ps, w', hrun, hattached⟩ := attached_of_any (bitmapDevice false) .activityPerformStart (by decide +kernel)
  obtain ⟨ps', v', hrun', hattached'⟩ := attached_bitmapCreation
  exact ⟨⟨ps, w', _, hrun, hattached, rfl, by decide +kernel⟩, ps', v', _, hrun', hattached', rfl, by decide +kernel⟩

theorem reports_creation : ∃ ps w' r,
    (resolveProbes (bitmapDevice true) (taskOf [bitmapProbe .bitmapCreation])).run { interfaces := .empty } = .ok ps w' ∧
      ((firingOn .bitmapCreation 0).fire .empty).1 = some r ∧
      ∀ s : Session (registeredBitmapHandler (bitmapDevice true).flags).1 BitmapAllocation,
        (after ((handItem (registeredBitmapHandler (bitmapDevice true).flags).2 quietEnv
          (taskOf [bitmapProbe .bitmapCreation]) r).run s)).calls = s.calls ++ [allocated 1000 5 6] := by
  obtain ⟨ps, w', hrun, hattached⟩ := attached_bitmapCreation
  have hsize : ∀ x ∈ [firingOn .bitmapCreation 0], x.program.creates = true →
      x.width.toNat < 2 ^ 31 ∧ x.height.toNat < 2 ^ 31 := List.forall_mem_singleton.mpr fun _ => by decide
  refine ⟨ps, w', _, hrun, rfl, fun s => ?_⟩
  refine ((reports_iff_told hrun (List.forall_mem_singleton.mpr hattached) hsize quietEnv .empty).1 (firingOn .bitmapCreation 0)
    _ (List.mem_singleton_self _) s).mpr ?_
  have hpixel : (firingOn .bitmapCreation 0).pixelStorageType.toNat < 2 ^ 31 := by decide +kernel
  exact fun _ => ⟨fun _ => rfl, hpixel⟩

end UprobeStats
