import UprobeStats.BitmapTracking
import UprobeStats.Theorems.BitmapAccounting

/-! Which bitmaps the handler still holds once it has taken all records. A record of a creation lets it hold
    a pointer until the record of its free, and that record is not submitted when the program does not know
    the pointer, or knows it and finds no room in the ring. -/

namespace UprobeStats
open Rust Effect BitmapHistory

/-! ### The programs -/

section Programs
variable {f : Firing BitmapAllocation} {tgid p q : UInt64} {slot : Option BitmapAllocation} {active : ActiveBitmaps}
  {r : BitmapAllocation} {history : List BitmapAllocation}

theorem record_of_creation
    (h : (bitmapCreationForSnapshot f.ctx f.mem f.pidTgid slot active).1 = some r) :
    r.type = 0 ∧ r.nativePtr = f.ctx.regs 3 := by
  cases slot with
  | none => cases h
  | some output =>
    cases h
    exact ⟨rfl, rfl⟩

theorem present_cons_of_creation (htype : r.type = 0) :
    present q (r :: history) = true ↔ q = r.nativePtr ∨ present q history = true := by
  have hne : r.type ≠ 1 := by simp [htype]
  rw [present]
  by_cases hq : r.nativePtr = q
  · simp [hq, htype]
  · simp [hq, Ne.symm hq]

theorem present_cons_of_free (htype : r.type = 1) :
    present q (r :: history) = true ↔ q ≠ r.nativePtr ∧ present q history = true := by
  have hne : r.type ≠ 0 := by simp [htype]
  rw [present, if_neg fun h => hne h.2]
  by_cases hq : r.nativePtr = q
  · simp [hq, htype]
  · simp [hq, Ne.symm hq]

end Programs

/-! ### Runs -/

namespace BitmapTracking

/-- The program fires with the pointer of the action. -/
def Action.Genuine : Action → Prop
  | create nativePtr f => f.ctx.regs 3 = nativePtr
  | free nativePtr f => f.Frees (f.pidTgid >>> 32) nativePtr
  | consume _ => True

/-- The free of a pointer whose creation was recorded finds it in `active_bitmaps`, and room in the ring. -/
def Kept (s : BitmapTracking) : Action → Prop
  | .free nativePtr f => present nativePtr s.submitted = true →
      ⟨f.pidTgid >>> 32, nativePtr⟩ ∈ s.active.keys ∧ outputHasRoom s.pending = true
  | _ => True

/-- The handler has taken the records handed to it, and every pointer that it holds, or will hold when it has
    taken the rest, is live. -/
structure NoneStale (uid : Int32) (s : BitmapTracking) : Prop where
  follows : Follows uid s.session.handed.reverse s.session.handler
  live : ∀ p, present p s.submitted = true → p ∈ s.live

section Step
variable {env : Env} {task : ResolvedTask} {p : UInt64} {s t : BitmapTracking} {f : Firing BitmapAllocation}
  {count : Nat} {actions : List Action}

theorem submitted_submit (s : BitmapTracking) (live : List UInt64) (fired : Option BitmapAllocation × ActiveBitmaps) :
    (s.submit live fired).submitted = fired.1.toList ++ s.submitted := by
  obtain ⟨record, active⟩ := fired
  cases record <;> simp [submit, submitted]

theorem step_create (h : step env task s (.create p f) = some t) :
    t = s.submit (p :: s.live) (bitmapCreationForSnapshot f.ctx f.mem f.pidTgid (s.reserve f) s.active) := by
  rw [step] at h
  split at h
  · cases h
  · exact (Option.some.inj h).symm

theorem step_consume (h : step env task s (.consume count) = some t) : ∃ session,
    ((s.pending.take count).forM (handItem bitmapAllocationHandlerV1 env task)).run s.session = .ok ⟨⟩ session ∧
      t = { s with pending := s.pending.drop count, session } := by
  rw [step] at h
  split at h
  · rename_i u session hok
    exact ⟨session, hok, (Option.some.inj h).symm⟩
  · cases h

/-- Taking records changes neither what was submitted nor what is live, and the handler follows. -/
theorem follows_consume (hf : Follows task.uid s.session.handed.reverse s.session.handler)
    (h : step env task s (.consume count) = some t) :
    t.submitted = s.submitted ∧ t.live = s.live ∧
      Follows task.uid t.session.handed.reverse t.session.handler := by
  obtain ⟨session, hok, rfl⟩ := step_consume h
  have hhanded := handed_of_forM_handItem _ _ _ hok
  refine ⟨?_, rfl, ?_⟩
  · simp only [submitted, hhanded, List.append_assoc, List.take_append_drop]
  · rw [hhanded, List.reverse_append]
    exact hf.run hok

theorem follows_step {a : Action} (hf : Follows task.uid s.session.handed.reverse s.session.handler)
    (h : step env task s a = some t) : Follows task.uid t.session.handed.reverse t.session.handler := by
  cases a with
  | create p f =>
    obtain rfl := step_create h
    exact hf
  | free p f =>
    obtain rfl := Option.some.inj h
    exact hf
  | consume count => exact (follows_consume hf h).2.2

theorem NoneStale.step {a : Action} (hs : NoneStale task.uid s) (hgenuine : a.Genuine) (hkept : Kept s a)
    (h : step env task s a = some t) : NoneStale task.uid t := by
  refine ⟨follows_step hs.follows h, fun q hq => ?_⟩
  cases a with
  | create p f =>
    obtain rfl := step_create h
    rw [submitted_submit] at hq
    cases hrecord : (bitmapCreationForSnapshot f.ctx f.mem f.pidTgid (s.reserve f) s.active).1 with
    | none =>
      rw [hrecord] at hq
      exact List.mem_cons_of_mem _ (hs.live q hq)
    | some r =>
      obtain ⟨htype, hptr⟩ := record_of_creation hrecord
      rw [hrecord] at hq
      rcases (present_cons_of_creation htype).mp hq with rfl | hq
      · rw [hptr, show f.ctx.regs 3 = p from hgenuine]
        exact List.mem_cons_self ..
      · exact List.mem_cons_of_mem _ (hs.live q hq)
  | free p f =>
    obtain rfl := Option.some.inj h
    rw [submitted_submit, applyFreeFunction_eq hgenuine] at hq
    have hother : q ≠ p ∧ present q s.submitted = true := by
      by_cases hrecorded : ⟨f.pidTgid >>> 32, p⟩ ∈ s.active.keys ∧ outputHasRoom s.pending = true
      · rw [if_pos hrecorded.1, reserve, if_pos hrecorded.2] at hq
        exact (present_cons_of_free rfl).mp hq
      · -- No record is submitted, and so the pointer is not one that the handler will hold.
        have hsame : present q s.submitted = true := by
          by_cases hactive : ⟨f.pidTgid >>> 32, p⟩ ∈ s.active.keys
          · rwa [if_pos hactive, reserve, if_neg fun hroom => hrecorded ⟨hactive, hroom⟩] at hq
          · rwa [if_neg hactive] at hq
        refine ⟨?_, hsame⟩
        rintro rfl
        exact hrecorded (hkept hsame)
    exact List.mem_filter.mpr ⟨hs.live q hother.2, by simpa using hother.1⟩
  | consume count =>
    obtain ⟨hsubmitted, hlive, -⟩ := follows_consume hs.follows h
    rw [hsubmitted] at hq
    rw [hlive]
    exact hs.live q hq

theorem follows_run (h : Steps.run (BitmapTracking.step env task) {} actions = some t) :
    Follows task.uid t.session.handed.reverse t.session.handler :=
  Steps.Reachable.inv (I := fun s => Follows task.uid s.session.handed.reverse s.session.handler)
    (Follows.default _) (fun _ _ _ hf hstep => follows_step hf hstep) (.of_run .init h)

/-- With an empty ring the handler holds the pointers that were recorded last as created. -/
theorem mem_bitmaps_iff (hf : Follows task.uid s.session.handed.reverse s.session.handler) (hdrained : s.pending = []) :
    p ∈ s.session.handler.bitmaps ↔ present p s.submitted = true := by
  rw [hf.mem_bitmaps, submitted, hdrained, List.append_nil]

/-- A free that is not kept leaves its pointer to be found by the handler. -/
theorem stale_of_not_kept (hgenuine : f.Frees (f.pidTgid >>> 32) p) (hkept : ¬Kept s (.free p f))
    (h : step env task s (.free p f) = some t) : present p t.submitted = true ∧ p ∉ t.live := by
  obtain rfl := Option.some.inj h
  obtain ⟨hpresent, hlost⟩ := Classical.not_imp.mp hkept
  refine ⟨?_, by simp [submit]⟩
  rw [submitted_submit, applyFreeFunction_eq hgenuine]
  by_cases hactive : ⟨f.pidTgid >>> 32, p⟩ ∈ s.active.keys
  · rw [if_pos hactive, reserve, if_neg fun hroom => hlost ⟨hactive, hroom⟩]
    exact hpresent
  · rw [if_neg hactive]
    exact hpresent

end Step

/-- In a run whose frees are all kept, whenever the ring is drained the handler holds live bitmaps only; and a
    free that is not kept leaves a stale one there when the ring is drained after it. -/
theorem bitmaps_live_of_kept {env : Env} {task : ResolvedTask} {actions : List Action} {t : BitmapTracking}
    (hgenuine : ∀ a ∈ actions, a.Genuine)
    (hrun : Steps.run (step env task) {} actions = some t) (hdrained : t.pending = []) :
    ((∀ pre a post s, actions = pre ++ a :: post → Steps.run (step env task) {} pre = some s → Kept s a) →
      ∀ p ∈ t.session.handler.bitmaps, p ∈ t.live) ∧
    ∀ pre p f count s, actions = pre ++ [.free p f, .consume count] → Steps.run (step env task) {} pre = some s →
      ¬Kept s (.free p f) → p ∈ t.session.handler.bitmaps ∧ p ∉ t.live := by
  have hf := follows_run hrun
  constructor
  · intro hkept p hp
    have hstart : NoneStale task.uid {} := ⟨Follows.default _, fun p hp => by cases hp⟩
    have hnone : NoneStale task.uid t := by
      refine Steps.run_inv (P := fun s a => a.Genuine ∧ Kept s a)
        (fun s a u hs ha hstep => hs.step ha.1 ha.2 hstep) hstart hrun fun pre a post s hsplit hpre => ⟨?_, ?_⟩
      · exact hgenuine a (hsplit ▸ List.mem_append_right _ (List.mem_cons_self ..))
      · exact hkept pre a post s hsplit hpre
    exact hnone.live p ((mem_bitmaps_iff hf hdrained).mp hp)
  · rintro pre p f count s rfl hpre hnot
    have hgenuine' : f.Frees (f.pidTgid >>> 32) p := hgenuine (.free p f) (List.mem_append_right _ (List.mem_cons_self ..))
    rw [Steps.run_append, hpre, Option.bind_some] at hrun
    obtain ⟨v, hfree, hrun⟩ := Steps.run_cons_eq_some.mp hrun
    obtain ⟨w, hconsume, hend⟩ := Steps.run_cons_eq_some.mp hrun
    obtain rfl := Option.some.inj hend
    obtain ⟨hpresent, hlive⟩ := stale_of_not_kept hgenuine' hnot hfree
    have hv : Follows task.uid v.session.handed.reverse v.session.handler := follows_step (follows_run hpre) hfree
    obtain ⟨hsubmitted, hsame, -⟩ := follows_consume hv hconsume
    rw [mem_bitmaps_iff hf hdrained, hsubmitted, hsame]
    exact ⟨hpresent, hlive⟩

/-! ### A full ring -/

def bitmapSlot : BitmapAllocation := ⟨0, 0, 0, 0, 0, 0, .zeros 128⟩

def createAction : Action := .create 0x1000 ⟨createCtx, bitmapMemory, 0x700000000, bitmapSlot⟩

def freeAction : Action := .free 0x1000 ⟨freeCtx, freeMemory, 0x700000000, bitmapSlot⟩

theorem genuine_createAction : createAction.Genuine := rfl

theorem genuine_freeAction : freeAction.Genuine := ⟨rfl, by decide +kernel⟩

theorem bitmaps_live_of_free : ∃ t, Steps.run (step quietEnv someTask) {} [createAction, freeAction, .consume 2] = some t ∧
    ∀ p ∈ t.session.handler.bitmaps, p ∈ t.live := by
  have hrun : (Steps.run (step quietEnv someTask) {} [createAction, freeAction, .consume 2]).any (fun t =>
      decide (t.pending = [])) = true := by decide +kernel
  obtain ⟨t, ht, hdrained⟩ := (Option.any_eq_true _ _).mp hrun
  have hgenuine : ∀ a ∈ [createAction, freeAction, .consume 2], a.Genuine :=
    List.forall_mem_cons.mpr ⟨genuine_createAction, List.forall_mem_cons.mpr ⟨genuine_freeAction,
      List.forall_mem_singleton.mpr trivial⟩⟩
  refine ⟨t, ht, (bitmaps_live_of_kept hgenuine ht (of_decide_eq_true hdrained)).1 fun pre a post s hsplit hpre => ?_⟩
  rcases pre with _ | ⟨a₁, _ | ⟨a₂, _ | ⟨a₃, pre⟩⟩⟩
  · obtain ⟨rfl, -⟩ := List.cons.inj hsplit
    trivial
  · obtain ⟨rfl, hrest⟩ := List.cons.inj hsplit
    obtain ⟨rfl, -⟩ := List.cons.inj hrest
    have hkept : (Steps.run (step quietEnv someTask) {} [createAction]).all (fun s =>
        decide (⟨(0x700000000 : UInt64) >>> 32, 0x1000⟩ ∈ s.active.keys ∧ outputHasRoom s.pending = true)) = true := by decide +kernel
    rw [hpre] at hkept
    exact fun _ => of_decide_eq_true hkept
  · obtain ⟨-, hrest⟩ := List.cons.inj hsplit
    obtain ⟨-, hrest⟩ := List.cons.inj hrest
    obtain ⟨rfl, -⟩ := List.cons.inj hrest
    trivial
  · simp at hsplit

/-- A bitmap that is created and freed over and over until the ring is full. -/
def fillRing : List Action := (List.replicate 48 [createAction, freeAction]).flatten ++ [createAction]

theorem stale_of_full_ring : ∃ t,
    Steps.run (step quietEnv someTask) {} (fillRing ++ [freeAction, .consume 97]) = some t ∧
      (∀ a ∈ fillRing ++ [freeAction, .consume 97], a.Genuine) ∧ t.pending = [] ∧
      0x1000 ∈ t.session.handler.bitmaps ∧ 0x1000 ∉ t.live := by
  have hrun : (Steps.run (step quietEnv someTask) {} (fillRing ++ [freeAction, .consume 97])).any (fun t =>
      decide (t.pending = [] ∧ 0x1000 ∈ t.session.handler.bitmaps ∧ 0x1000 ∉ t.live)) = true := by decide +kernel
  obtain ⟨t, ht, hstale⟩ := (Option.any_eq_true _ _).mp hrun
  refine ⟨t, ht, fun a ha => ?_, of_decide_eq_true hstale⟩
  have hcases : a = createAction ∨ a = freeAction ∨ a = .consume 97 := by
    simp only [fillRing, List.mem_append, List.mem_flatten, List.mem_replicate, List.mem_cons, List.not_mem_nil, or_false] at ha
    rcases ha with (⟨l, ⟨-, rfl⟩, ha⟩ | rfl) | rfl | rfl
    · simp only [List.mem_cons, List.not_mem_nil, or_false] at ha
      exact ha.imp_right .inl
    · exact .inl rfl
    · exact .inr (.inl rfl)
    · exact .inr (.inr rfl)
  rcases hcases with rfl | rfl | rfl
  · exact genuine_createAction
  · exact genuine_freeAction
  · trivial

end BitmapTracking

end UprobeStats
