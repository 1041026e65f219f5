import UprobeStats.Handler

/-! The poll loop. On a device that answers every call it hands over what it polls until the timer
    expires, and it reaches its end exactly when the handler takes every record. -/

namespace UprobeStats
open Rust Effect

/-! ### Calls -/

section Calls
variable {H T α : Type} {c : Call} {answer : List Call → Except Error α} {s t : Session H T} {xs : List T}

theorem after_call (c : Call) (answer : List Call → Except Error α) (s : Session H T) :
    after ((call c answer).run s) = { s with calls := s.calls ++ [c] } := by
  unfold call
  simp only [EStateM.run_bind, EStateM.run_get, EStateM.run_set, run_lift]
  cases answer s.calls <;> rfl

theorem handler_of_call {a : α} (h : (call c answer : Handling H T α).run s = .ok a t) : t.handler = s.handler := by
  have hafter := after_call c answer s
  rw [h, after_ok] at hafter
  rw [hafter]

theorem handler_of_call_error {e : Error} (h : (call c answer : Handling H T α).run s = .error e t) :
    t.handler = s.handler := by
  have hafter := after_call c answer s
  rw [h, after_error] at hafter
  rw [hafter]

theorem succeeds_call (h : ∀ calls, ∃ a, answer calls = .ok a) :
    Succeeds (fun s : Session H T => s.handed = xs) (call c answer) fun _ t => t.handed = xs := by
  intro s hs
  obtain ⟨a, ha⟩ := h s.calls
  refine ⟨a, { s with calls := s.calls ++ [c] }, ?_, hs⟩
  simp [call, ha, run_lift]

end Calls

structure Env.Answers (env : Env) : Prop where
  statsWrite : ∀ calls atom, env.statsWrite calls atom = .ok ()
  service : ∀ calls, env.service calls = .ok ()
  isLauncherActivity : ∀ calls packageName className includeDisabled,
    ∃ b, env.isLauncherActivity calls packageName className includeDisabled = .ok b
  getUidForPackage : ∀ calls packageName, ∃ uid, env.getUidForPackage calls packageName = .ok uid

namespace Env.Answers
variable {env : Env} {H T : Type} {xs : List T}

theorem succeeds_statsWrite (h : env.Answers) (atom : Atom) :
    Succeeds (fun s : Session H T => s.handed = xs) (UprobeStats.statsWrite env atom) fun _ t => t.handed = xs :=
  succeeds_call fun calls => ⟨(), h.statsWrite calls atom⟩

theorem succeeds_service (h : env.Answers) :
    Succeeds (fun s : Session H T => s.handed = xs) (uprobestatsService env) fun _ t => t.handed = xs :=
  succeeds_call fun calls => ⟨(), h.service calls⟩

theorem succeeds_isLauncherActivity (h : env.Answers) (packageName className : String) (includeDisabled : Bool) :
    Succeeds (fun s : Session H T => s.handed = xs)
      (UprobeStats.isLauncherActivity env packageName className includeDisabled) fun _ t => t.handed = xs :=
  succeeds_call fun calls => h.isLauncherActivity calls packageName className includeDisabled

theorem succeeds_getUidForPackage (h : env.Answers) (packageName : String) :
    Succeeds (fun s : Session H T => s.handed = xs) (UprobeStats.getUidForPackage env packageName)
      fun _ t => t.handed = xs :=
  succeeds_call fun calls => h.getUidForPackage calls packageName

end Env.Answers

def quietEnv : Env where
  isUserBuild := true
  statsWrite _ _ := .ok ()
  service _ := .ok ()
  isLauncherActivity _ _ _ _ := .ok false
  getUidForPackage _ _ := .ok 0
  snapshotId _ := 0

theorem quietEnv_answers : quietEnv.Answers :=
  ⟨fun _ _ => rfl, fun _ => rfl, fun _ _ _ _ => ⟨false, rfl⟩, fun _ _ => ⟨0, rfl⟩⟩

def someTask : ResolvedTask := ⟨{}, 1, "system_server", 1, 1000, []⟩

/-! ### What is handed over -/

section Handed
variable {H T : Type} (h : Handler H T) (env : Env) (task : ResolvedTask)

/-- The records that are handed over are the first ones of a poll, and all of them if none fails. -/
theorem handed_forM_handItem : ∀ (items : List T) (s : Session H T),
    ∃ n, (after ((items.forM (handItem h env task)).run s)).handed = s.handed ++ items.take n ∧
      ∀ u t, (items.forM (handItem h env task)).run s = .ok u t → items.length ≤ n
  | [], s => ⟨0, (List.append_nil _).symm, fun _ _ _ => Nat.zero_le _⟩
  | item :: items, s => by
    have hsame := h.sameHanded_onItem env task item { s with handed := s.handed ++ [item] }
    have hrun : ((item :: items).forM (handItem h env task)).run s =
        (h.onItem env task item >>= fun _ => items.forM (handItem h env task)).run
          { s with handed := s.handed ++ [item] } := by
      rw [forM_cons, handItem, bind_assoc,
        EStateM.run_bind, EStateM.run_modify]
    rw [hrun, EStateM.run_bind]
    cases hitem : (h.onItem env task item).run { s with handed := s.handed ++ [item] } with
    | error e t =>
      rw [hitem] at hsame
      exact ⟨1, hsame, fun _ _ hok => by cases hok⟩
    | ok u t =>
      rw [hitem] at hsame
      obtain ⟨n, hn, hall⟩ := handed_forM_handItem items t
      refine ⟨n + 1, ?_, fun u v hok => Nat.succ_le_succ (hall u v hok)⟩
      dsimp only
      rw [hn, show t.handed = s.handed ++ [item] from hsame, List.take_succ_cons, List.append_assoc]
      rfl

theorem handed_of_forM_handItem {items : List T} {s t : Session H T} {u : PUnit}
    (hok : (items.forM (handItem h env task)).run s = .ok u t) : t.handed = s.handed ++ items := by
  obtain ⟨n, hn, hall⟩ := handed_forM_handItem h env task items s
  rw [hok, after_ok] at hn
  rw [hn, List.take_of_length_le (hall u t hok)]

end Handed

/-! ### The loop -/

/-- A turn of the loop whose poll succeeds. -/
structure Turn (T : Type) where
  elapsed : Nat
  items : List T

def Turn.round {T : Type} (x : Turn T) : Round T := ⟨x.elapsed, .ok x.items⟩

def beforeExpiry {T : Type} (duration : Nat) (turns : List (Turn T)) : List (Turn T) :=
  turns.takeWhile (·.elapsed ≤ duration)

/-- The handler takes exactly the records that are `good`. -/
structure Handler.Takes {H T : Type} (h : Handler H T) (env : Env) (good : T → Prop) : Prop where
  succeeds : ∀ task item xs, good item →
    Succeeds (fun s => s.handed = xs) (h.onItem env task item) fun _ t => t.handed = xs
  good_of_ok : ∀ task item s t u, (h.onItem env task item).run s = .ok u t → good item
  finishes : ∀ xs, Succeeds (fun s => s.handed = xs) (h.onFinished env) fun _ t => t.handed = xs

section Loop
variable {H T : Type} {h : Handler H T} {env : Env} {task : ResolvedTask} {good : T → Prop} {mapPath : String}
  {duration : Nat}

theorem succeeds_forM_handItem (ht : h.Takes env good) (task : ResolvedTask) : ∀ {items : List T} {xs : List T}, (∀ r ∈ items, good r) →
    Succeeds (fun s => s.handed = xs) (items.forM (handItem h env task)) fun _ t => t.handed = xs ++ items
  | [], xs, _ => Succeeds.pure fun s hs => by simpa using hs
  | r :: items, xs, hgood => by
    have hitem : Succeeds (fun s => s.handed = xs) (handItem h env task r) fun _ t => t.handed = xs ++ [r] := by
      refine Succeeds.bind (Q := fun _ t => t.handed = xs ++ [r]) (.modify fun s hs => by simp [hs]) fun _ => ?_
      exact ht.succeeds task r _ (hgood r (List.mem_cons_self ..))
    have hrest : Succeeds (fun s => s.handed = xs ++ [r]) (items.forM (handItem h env task))
        fun _ t => t.handed = xs ++ [r] ++ items :=
      succeeds_forM_handItem ht task fun r hr => hgood r (List.mem_cons_of_mem _ hr)
    rw [List.append_assoc] at hrest
    exact hitem.bind fun _ => hrest

theorem good_of_forM_handItem (ht : h.Takes env good) : ∀ {items : List T} {s t : Session H T} {u : PUnit},
    (items.forM (handItem h env task)).run s = .ok u t → ∀ r ∈ items, good r
  | [], _, _, _, _, r, hr => by simp at hr
  | x :: items, s, t, u, hok, r, hr => by
    obtain ⟨v, hx, hrest⟩ := forM_cons_eq_ok.mp hok
    rcases List.mem_cons.mp hr with rfl | hr
    · unfold handItem at hx
      rw [bind_modify_eq_ok] at hx
      exact ht.good_of_ok _ _ _ _ _ hx
    · exact good_of_forM_handItem ht hrest r hr

theorem tryI32_remaining {n : Nat} (h : n < 2 ^ 31) : ∃ x, tryI32 n = .ok x :=
  ⟨Int32.ofInt n, by rw [tryI32, if_pos (by omega)]⟩

/-- The loop that gets every record across hands over all that it polled. -/
theorem succeeds_pollLoop (ht : h.Takes env good) (task : ResolvedTask) (mapPath : String) : ∀ {turns : List (Turn T)} {xs : List T},
    (∃ x ∈ turns, duration < x.elapsed) →
    (∀ x ∈ beforeExpiry duration turns, duration - x.elapsed < 2 ^ 31 ∧ ∀ r ∈ x.items, good r) →
    Succeeds (fun s => s.handed = xs) (pollLoop h env task mapPath duration (turns.map Turn.round)) fun b t =>
      b = true ∧ t.handed = xs ++ (beforeExpiry duration turns).flatMap (·.items)
  | [], _, ⟨x, hx, _⟩, _ => by simp at hx
  | x :: turns, xs, hexpires, hgood => by
    by_cases hx : x.elapsed ≤ duration
    · have hbefore : beforeExpiry duration (x :: turns) = x :: beforeExpiry duration turns := by
        simp [beforeExpiry, hx]
      rw [hbefore] at hgood ⊢
      obtain ⟨hfits, hitems⟩ := hgood x (List.mem_cons_self ..)
      obtain ⟨timeout, htimeout⟩ := tryI32_remaining hfits
      have hrest : ∃ y ∈ turns, duration < y.elapsed := by
        obtain ⟨y, hy, hlt⟩ := hexpires
        rcases List.mem_cons.mp hy with rfl | hy
        · omega
        · exact ⟨y, hy, hlt⟩
      simp only [List.map_cons, pollLoop, Turn.round, remainingMillis, hx, if_true]
      refine Succeeds.lift_bind htimeout ?_
      refine Succeeds.bind (Q := fun items t => items = x.items ∧ t.handed = xs) ?_ fun items => ?_
      · intro s hs
        exact ⟨x.items, _, rfl, rfl, hs⟩
      · intro s hs
        obtain ⟨rfl, hs⟩ := hs
        obtain ⟨u, t, hrun, hhanded⟩ := succeeds_forM_handItem ht task hitems s hs
        obtain ⟨b, v, hrun', hb, hhanded'⟩ := succeeds_pollLoop ht task mapPath hrest
          (fun y hy => hgood y (List.mem_cons_of_mem _ hy)) t hhanded
        refine ⟨b, v, bind_eq_ok.mpr ⟨u, t, hrun, hrun'⟩, hb, ?_⟩
        rw [hhanded', List.flatMap_cons, List.append_assoc]
    · have hbefore : beforeExpiry duration (x :: turns) = [] := by simp [beforeExpiry, hx]
      rw [hbefore]
      simp only [List.map_cons, pollLoop, Turn.round, remainingMillis, hx, if_false, List.flatMap_nil, List.append_nil]
      exact (ht.finishes xs).bind fun _ => .pure fun s hs => ⟨rfl, hs⟩

/-- A loop that reached its end got every record across. -/
theorem good_of_pollLoop (ht : h.Takes env good) : ∀ {turns : List (Turn T)} {s t : Session H T},
    (pollLoop h env task mapPath duration (turns.map Turn.round)).run s = .ok true t →
    ∀ x ∈ beforeExpiry duration turns, duration - x.elapsed < 2 ^ 31 ∧ ∀ r ∈ x.items, good r
  | [], _, _, _, x, hx => by simp [beforeExpiry] at hx
  | y :: turns, s, t, hok, x, hx => by
    by_cases hy : y.elapsed ≤ duration
    · have hbefore : beforeExpiry duration (y :: turns) = y :: beforeExpiry duration turns := by
        simp [beforeExpiry, hy]
      rw [hbefore] at hx
      simp only [List.map_cons, pollLoop, Turn.round, remainingMillis, hy, if_true] at hok
      obtain ⟨timeout, htimeout, hok⟩ := bind_lift_eq_ok.mp hok
      obtain ⟨items, v, hcall, hok⟩ := bind_eq_ok.mp hok
      cases hcall
      obtain ⟨u, w, hitems, hok⟩ := bind_eq_ok.mp hok
      rcases List.mem_cons.mp hx with rfl | hx
      · have hlt := timeout.toInt_lt
        rw [tryI32_eq_ok] at htimeout
        exact ⟨by omega, good_of_forM_handItem ht hitems⟩
      · exact good_of_pollLoop ht hok x hx
    · simp [beforeExpiry, hy] at hx

end Loop

/-- The loop passes every record that it polls to `on_item` and reaches `on_finished`. -/
def Completes {H T : Type} (h : Handler H T) (env : Env) (task : ResolvedTask) (duration : Nat)
    (turns : List (Turn T)) : Prop :=
  ∃ t, (pollLoopGeneric h env task h.mapPath duration (turns.map Turn.round)).run { handler := h.default } =
      .ok true t ∧ t.handed = (beforeExpiry duration turns).flatMap (·.items)

theorem completes_iff {H T : Type} {h : Handler H T} {env : Env} {good : T → Prop} (ht : h.Takes env good)
    (task : ResolvedTask) {duration : Nat} {turns : List (Turn T)} (hexpires : ∃ x ∈ turns, duration < x.elapsed) :
    Completes h env task duration turns ↔
      ∀ x ∈ beforeExpiry duration turns, duration - x.elapsed < 2 ^ 31 ∧ ∀ r ∈ x.items, good r := by
  have hrun : ∀ s : Session H T, (pollLoopGeneric h env task h.mapPath duration (turns.map Turn.round)).run s =
      (pollLoop h env task h.mapPath duration (turns.map Turn.round)).run { s with handler := h.default } := by
    intro s
    simp [pollLoopGeneric, modifyHandler]
  unfold Completes
  rw [hrun]
  constructor
  · rintro ⟨t, hok, -⟩
    exact good_of_pollLoop ht hok
  · intro hgood
    obtain ⟨b, t, hok, rfl, hhanded⟩ := succeeds_pollLoop ht task h.mapPath hexpires hgood
      { handler := h.default } rfl
    exact ⟨t, hok, by simpa using hhanded⟩

end UprobeStats
