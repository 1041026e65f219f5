import UprobeStats.PerfEvents
import Mathlib.Algebra.Order.BigOperators.Group.List
import Mathlib.Algebra.Order.Group.Nat

/-! What is attached. The calls of a run attach their programs one after the other until one fails: each event of a call
    before runs the program of its own call at its own place. A call that fails may leave an event open, without a
    program, or with it when only the enabling failed: an event is enabled from the start. -/

namespace UprobeStats.PerfEvents
open Effect

section Calls
variable {kernel : Kernel} {files : Files}

theorem run_syscall_bind {α : Type} {call : Syscall} {k : Files → Prog α} :
    (syscall kernel call >>= k).run files =
      if kernel.fails files call then .error () files else (k files).run files := by
  rw [syscall, bind_assoc, run_get_bind]
  split <;> rfl

/-- A change of the descriptor that was opened last changes the last event alone. -/
theorem onEvent_append {programs : List (Nat × String)} {events : List PerfEvent} {event : PerfEvent}
    (hfresh : event.fd ∉ events.map (·.fd)) (f : PerfEvent → PerfEvent) :
    Files.onEvent ⟨programs, events ++ [event]⟩ event.fd f = ⟨programs, events ++ [f event]⟩ := by
  have hsame : events.map (fun e => if e.fd = event.fd then f e else e) = events := by
    refine (List.map_congr_left fun e he => ?_).trans (List.map_id _)
    exact if_neg fun heq => hfresh (List.mem_map.mpr ⟨e, he, heq⟩)
  simp only [Files.onEvent, List.map_append, hsame, List.map_cons, List.map_nil, if_true]

theorem closeProgram_append {programs : List (Nat × String)} {events : List PerfEvent} {fd : Nat} {path : String}
    (hfresh : fd ∉ programs.map (·.1)) : closeProgram fd ⟨programs ++ [(fd, path)], events⟩ = ⟨programs, events⟩ := by
  have hsame : programs.filter (fun program => program.1 ≠ fd) = programs := by
    refine List.filter_eq_self.mpr fun program hprogram => decide_eq_true fun heq => hfresh ?_
    exact List.mem_map.mpr ⟨program, hprogram, heq⟩
  simp only [closeProgram, List.filter_append, hsame]
  simp

theorem lookup_append {programs : List (Nat × String)} {fd : Nat} {path : String}
    (hfresh : fd ∉ programs.map (·.1)) : (programs ++ [(fd, path)]).lookup fd = some path := by
  induction programs with
  | nil => simp
  | cons program programs ih =>
    rw [List.map_cons, List.mem_cons, not_or] at hfresh
    rw [List.cons_append, List.lookup_cons, beq_false_of_ne hfresh.1]
    exact ih hfresh.2

/-- What an event is for. -/
def PerfEvent.target (event : PerfEvent) : PerfEventAttr × Int32 × Option String :=
  (event.attr, event.pid, event.program)

def Attachment.target (kernel : Kernel) (a : Attachment) : PerfEventAttr × Int32 × Option String :=
  (attrOf kernel a, a.pid, some a.bpfProgramPath)

/-- The event runs its program. -/
def PerfEvent.runs (event : PerfEvent) : Bool := event.enabled && event.program.isSome

/-- What a call that fails leaves: an event without a program, or its own event, which runs though the kernel has failed
    to enable it. -/
def LeftBy (kernel : Kernel) (a : Attachment) (event : PerfEvent) : Prop :=
  event.program = none ∨
    (event.target = a.target kernel ∧ event.runs = true ∧ ∃ files, kernel.fails files (.enable event.fd) = true)

/-- How a call may end: it fails before it has opened an event, it fails and leaves one, or it has attached its
    program. -/
inductive Ends (kernel : Kernel) (a : Attachment) (files : Files) : EStateM.Result Unit Files PUnit → Prop
  | refused : Ends kernel a files (.error () files)
  | leaves (event : PerfEvent) (hfd : event.fd ∉ files.fds) (hleft : LeftBy kernel a event) :
      Ends kernel a files (.error () { files with events := files.events ++ [event] })
  | attached (fd : Nat) (hfd : fd ∉ files.fds) :
      Ends kernel a files (.ok ⟨⟩ { files with
        events := files.events ++ [⟨fd, attrOf kernel a, a.pid, some a.bpfProgramPath, true⟩] })

theorem openWith_ends {a : Attachment} {bpfProgramFd : Nat}
    (hprogram : files.programs.lookup bpfProgramFd = some a.bpfProgramPath) :
    Ends kernel a files ((openWith kernel a bpfProgramFd).run files) := by
  obtain ⟨programs, events⟩ := files
  rw [openWith, run_syscall_bind]
  split
  · exact .refused
  rw [perfEventOpen, bind_assoc, run_syscall_bind]
  split
  · exact .refused
  have hfresh := kernel.newFd_fresh ⟨programs, events⟩
  generalize kernel.newFd ⟨programs, events⟩ = fd at hfresh ⊢
  have hnew : fd ∉ events.map (·.fd) := fun h => hfresh (List.mem_append_right _ h)
  show Ends kernel a _ ((setBpf kernel fd bpfProgramFd >>= fun _ => enable kernel fd).run
    ⟨programs, events ++ [⟨fd, attrOf kernel a, a.pid, none, true⟩]⟩)
  rw [setBpf, bind_assoc, run_syscall_bind]
  split
  · exact .leaves _ hfresh (.inl rfl)
  show Ends kernel a _ ((enable kernel fd).run (Files.onEvent _ fd _))
  rw [@onEvent_append programs events ⟨fd, attrOf kernel a, a.pid, none, true⟩ hnew, enable, run_syscall_bind, hprogram]
  split
  · rename_i hfails
    exact .leaves _ hfresh (.inr ⟨rfl, rfl, _, hfails⟩)
  show Ends kernel a _ (.ok ⟨⟩ (Files.onEvent _ fd _))
  rw [@onEvent_append programs events ⟨fd, attrOf kernel a, a.pid, some a.bpfProgramPath, true⟩ hnew]
  exact .attached fd hfresh

theorem bpfPerfEventOpen_ends (a : Attachment) : Ends kernel a files ((bpfPerfEventOpen kernel a).run files) := by
  obtain ⟨programs, events⟩ := files
  rw [bpfPerfEventOpen, retrieveProgram, bind_assoc, run_syscall_bind]
  split
  · exact .refused
  have hfresh := kernel.newFd_fresh ⟨programs, events⟩
  generalize kernel.newFd ⟨programs, events⟩ = bpfProgramFd at hfresh ⊢
  have hnew : bpfProgramFd ∉ programs.map (·.1) := fun h => hfresh (List.mem_append_left _ h)
  show Ends kernel a _ ((onExit (openWith kernel a bpfProgramFd) (closeProgram bpfProgramFd)).run
    ⟨programs ++ [(bpfProgramFd, a.bpfProgramPath)], events⟩)
  have hfds {fd : Nat} (h : fd ∉ Files.fds ⟨programs ++ [(bpfProgramFd, a.bpfProgramPath)], events⟩) :
      fd ∉ Files.fds ⟨programs, events⟩ := fun hmem => h <| by
    rw [Files.fds, List.map_append, List.append_assoc, List.mem_append]
    exact (List.mem_append.mp hmem).imp_right (List.mem_append_right _)
  have hends : Ends kernel a ⟨programs ++ [(bpfProgramFd, a.bpfProgramPath)], events⟩
    ((openWith kernel a bpfProgramFd).run _) := openWith_ends (lookup_append hnew)
  rw [run_onExit]
  generalize (openWith kernel a bpfProgramFd).run ⟨programs ++ [(bpfProgramFd, a.bpfProgramPath)], events⟩ = result
    at hends ⊢
  cases hends with
  | refused =>
    dsimp only
    rw [closeProgram_append hnew]
    exact .refused
  | leaves event hfd hleft =>
    dsimp only
    rw [closeProgram_append hnew]
    exact .leaves event (hfds hfd) hleft
  | attached fd hfd =>
    dsimp only
    rw [closeProgram_append hnew]
    exact .attached fd (hfds hfd)

end Calls

/-! ### The calls of a run -/

section Run
variable {kernel : Kernel}

/-- What calls add to the events: one for each of the first calls, and behind them what the call after those has left. -/
structure Attached (kernel : Kernel) (attachments : List Attachment) (n : Nat) (events leftover : List PerfEvent) : Prop where
  targets : events.map (·.target) = (attachments.take n).map (·.target kernel)
  runs : ∀ event ∈ events, event.runs = true
  length_leftover : leftover.length ≤ 1
  left : ∀ event ∈ leftover, ∃ a ∈ attachments[n]?, LeftBy kernel a event

theorem nodup_fds_append {files : Files} {event : PerfEvent} (hnodup : files.fds.Nodup) (hfd : event.fd ∉ files.fds) :
    Files.fds { files with events := files.events ++ [event] } |>.Nodup := by
  have hfds : Files.fds { files with events := files.events ++ [event] } = files.fds.concat event.fd := by
    rw [List.concat_eq_append, Files.fds, Files.fds, List.append_assoc, List.map_append]
    rfl
  rw [hfds]
  exact hnodup.concat hfd

theorem attached_forM : ∀ (attachments : List Attachment) (files : Files), files.fds.Nodup →
    let result := (attachments.forM (bpfPerfEventOpen kernel)).run files
    ∃ n events leftover, Attached kernel attachments n events leftover ∧
      after result = { files with events := files.events ++ (events ++ leftover) } ∧ (after result).fds.Nodup ∧
      (isOk result = true → attachments.length ≤ n ∧ leftover = []) ∧ (isOk result = false → n < attachments.length)
  | [], files, hnodup => by
    refine ⟨0, [], [], ⟨rfl, by simp, by simp, by simp⟩, ?_, hnodup, fun _ => ⟨Nat.le_refl _, rfl⟩, fun h => by cases h⟩
    show files = _
    simp
  | a :: attachments, files, hnodup => by
    have hends : Ends kernel a files ((bpfPerfEventOpen kernel a).run files) := bpfPerfEventOpen_ends a
    rw [forM_cons, EStateM.run_bind]
    generalize (bpfPerfEventOpen kernel a).run files = result at hends ⊢
    cases hends with
    | refused =>
      refine ⟨0, [], [], ⟨rfl, by simp, by simp, by simp⟩, ?_, hnodup, (fun h => by cases h), fun _ => Nat.succ_pos _⟩
      show files = _
      simp
    | leaves event hfd hleft =>
      exact ⟨0, [], [event], ⟨rfl, by simp, Nat.le_refl _, by simpa using hleft⟩, rfl, nodup_fds_append hnodup hfd,
        (fun h => by cases h), fun _ => Nat.succ_pos _⟩
    | attached fd hfd =>
      let event : PerfEvent := ⟨fd, attrOf kernel a, a.pid, some a.bpfProgramPath, true⟩
      obtain ⟨n, events, leftover, hattached, hafter, hnodup', hok, herror⟩ :=
        attached_forM attachments { files with events := files.events ++ [event] } (nodup_fds_append hnodup hfd)
      refine ⟨n + 1, event :: events, leftover, ⟨?_, ?_, hattached.length_leftover, hattached.left⟩, ?_, hnodup', ?_,
        fun h => Nat.succ_lt_succ (herror h)⟩
      · rw [List.take_succ_cons, List.map_cons, List.map_cons, hattached.targets]
        rfl
      · exact List.forall_mem_cons.mpr ⟨rfl, hattached.runs⟩
      · dsimp only
        rw [hafter, List.append_assoc]
        rfl
      · exact fun h => ⟨Nat.succ_le_succ (hok h).1, (hok h).2⟩

/-- The calls of a run, of which the first that fails is the last. Afterwards there is one event more for each call
    before it, in order, which runs its own program at its own place. The call that fails may leave one event besides,
    which runs nothing unless only its enabling has failed. No descriptor of a program stays open, and no two
    descriptors are one. -/
theorem attaches_up_to_failure (kernel : Kernel) (attachments : List Attachment) {files : Files}
    (hnodup : files.fds.Nodup) :
    let result := (attachments.forM (bpfPerfEventOpen kernel)).run files
    ∃ n events leftover, after result = { files with events := files.events ++ (events ++ leftover) } ∧
      events.map (·.target) = (attachments.take n).map (·.target kernel) ∧ (∀ event ∈ events, event.runs = true) ∧
      leftover.length ≤ 1 ∧ (∀ event ∈ leftover, ∃ a ∈ attachments[n]?, LeftBy kernel a event) ∧
      (after result).fds.Nodup ∧ (isOk result = true ↔ attachments.length ≤ n) ∧ (isOk result = true → leftover = []) := by
  obtain ⟨n, events, leftover, hattached, hafter, hnodup', hok, herror⟩ :=
    @attached_forM kernel attachments files hnodup
  refine ⟨n, events, leftover, hafter, hattached.targets, hattached.runs, hattached.length_leftover, hattached.left,
    hnodup', ⟨fun h => (hok h).1, fun hlength => ?_⟩, fun h => (hok h).2⟩
  by_contra hnot
  exact absurd (herror (Bool.eq_false_iff.mpr hnot)) (by omega)

end Run

/-! ### Two probes -/

/-- A kernel that numbers descriptors upwards, and gives one event only a program. -/
def strictKernel : Kernel where
  pmuTypeFile := [56, 10]
  fails files
    | .setBpf _ _ => files.events.any (·.program.isSome)
    | _ => false
  newFd files := files.fds.sum + 1
  newFd_fresh files h := by
    have := List.le_sum_of_mem h
    omega

def twoProbes : List Attachment :=
  [⟨"/system/framework/services.odex", 0x40, 1000, "prog_a"⟩, ⟨"/apex/art/core.oat", -1, 1000, "prog_b"⟩]

/-- The first is attached; the second leaves its event behind, without its program. -/
theorem attaches_up_to_failure_of_two : ∃ events leftover : List PerfEvent,
    (after ((twoProbes.forM (bpfPerfEventOpen strictKernel)).run {})).events = events ++ leftover ∧
      events.map (·.target) = [(⟨8, "/system/framework/services.odex", 0x40, false⟩, 1000, some "prog_a")] ∧
      leftover.map (·.target) = [(⟨8, "/apex/art/core.oat", 0xFFFFFFFFFFFFFFFF, false⟩, 1000, none)] := by
  obtain ⟨n, events, leftover, hafter, htargets, -, hlength, -, -, hok, -⟩ :=
    @attaches_up_to_failure strictKernel twoProbes {} (List.nodup_nil)
  have hrun : (after ((twoProbes.forM (bpfPerfEventOpen strictKernel)).run {})).events.map (·.target) =
      [(⟨8, "/system/framework/services.odex", 0x40, false⟩, 1000, some "prog_a"),
        (⟨8, "/apex/art/core.oat", 0xFFFFFFFFFFFFFFFF, false⟩, 1000, none)] := by decide +kernel
  have hfails : isOk ((twoProbes.forM (bpfPerfEventOpen strictKernel)).run {}) = false := by decide +kernel
  have hevents : (after ((twoProbes.forM (bpfPerfEventOpen strictKernel)).run {})).events = events ++ leftover :=
    congrArg Files.events hafter
  have hshort : ¬2 ≤ n := fun h => by
    rw [hok.mpr h] at hfails
    cases hfails
  have hcount : events.length + leftover.length = 2 := by
    rw [← List.length_append, ← hevents]
    exact (List.length_map _).symm.trans (congrArg List.length hrun)
  have htaken : events.length ≤ n := by
    rw [← List.length_map (f := (·.target)), htargets, List.length_map]
    exact List.length_take_le _ _
  obtain rfl : n = 1 := by omega
  have hfirst : events.map (·.target) =
      [(⟨8, "/system/framework/services.odex", 0x40, false⟩, 1000, some "prog_a")] := htargets.trans (by decide +kernel)
  rw [hevents, List.map_append, hfirst] at hrun
  exact ⟨events, leftover, hevents, hfirst, (List.cons.inj hrun).2⟩

end UprobeStats.PerfEvents
