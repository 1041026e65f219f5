import Mathlib.Data.List.Basic
import Mathlib.Order.RelClasses

/-! Programs with a state and errors. An error keeps the state reached before it, so what a program has
    done to the world is there however it stops. -/

namespace Effect
variable {ε σ α β : Type}

/-- The state in which a program stops. -/
def after : EStateM.Result ε σ α → σ
  | .ok _ s => s
  | .error _ s => s

@[simp] theorem after_ok {a : α} {s : σ} : after (.ok a s : EStateM.Result ε σ α) = s := rfl
@[simp] theorem after_error {e : ε} {s : σ} : after (.error e s : EStateM.Result ε σ α) = s := rfl

def isOk : EStateM.Result ε σ α → Bool
  | .ok _ _ => true
  | .error _ _ => false

theorem eq_ok_of_isOk {r : EStateM.Result ε σ PUnit} (h : isOk r = true) : r = .ok ⟨⟩ (after r) := by
  cases r with
  | ok u s => rfl
  | error e s => cases h

theorem exists_of_isOk {r : EStateM.Result ε σ α} (h : isOk r = true) : ∃ a s, r = .ok a s := by
  cases r with
  | ok a s => exact ⟨a, s, rfl⟩
  | error e s => cases h

def value? : EStateM.Result ε σ α → Option α
  | .ok a _ => some a
  | .error _ _ => none

theorem exists_of_value? {r : EStateM.Result ε σ α} {a : α} (h : value? r = some a) : ∃ s, r = .ok a s := by
  cases r with
  | ok b s => exact ⟨s, by rw [Option.some.inj h]⟩
  | error e s => cases h

theorem exists_of_any_value? {r : EStateM.Result ε σ α} {p : α → Bool} (h : (value? r).any p = true) :
    ∃ a s, r = .ok a s ∧ p a = true := by
  obtain ⟨a, hvalue, hp⟩ := (Option.any_eq_true _ _).mp h
  obtain ⟨s, hrun⟩ := exists_of_value? hvalue
  exact ⟨a, s, hrun, hp⟩

def lift : Except ε α → EStateM ε σ α
  | .ok a => pure a
  | .error e => throw e

def attempt (x : EStateM ε σ α) : EStateM ε σ (Except ε α) := fun s =>
  match x.run s with
  | .ok a t => .ok (.ok a) t
  | .error e t => .ok (.error e) t

/-- A program with a destructor that runs however it stops. -/
def onExit (x : EStateM ε σ α) (g : σ → σ) : EStateM ε σ α := fun s =>
  match x.run s with
  | .ok a t => .ok a (g t)
  | .error e t => .error e (g t)

/-- A program with a destructor that runs when it fails. -/
def onError (x : EStateM ε σ α) (g : σ → σ) : EStateM ε σ α := fun s =>
  match x.run s with
  | .ok a t => .ok a t
  | .error e t => .error e (g t)

/-! ### Running -/

section Run
variable {s t : σ} {a : α} {b : β} {e : ε} {x : EStateM ε σ α} {f : α → EStateM ε σ β}

theorem bind_eq_ok : (x >>= f).run s = .ok b t ↔ ∃ a u, x.run s = .ok a u ∧ (f a).run u = .ok b t := by
  rw [EStateM.run_bind]
  cases x.run s <;> simp

theorem run_lift {y : Except ε α} :
    (lift y : EStateM ε σ α).run s = match y with | .ok a => .ok a s | .error e => .error e s := by
  cases y <;> rfl

theorem lift_eq_ok {y : Except ε α} : (lift y : EStateM ε σ α).run s = .ok a t ↔ y = .ok a ∧ t = s := by
  cases y <;> simp [run_lift, eq_comm]

theorem bind_lift_eq_ok {y : Except ε α} :
    ((lift y : EStateM ε σ α) >>= f).run s = .ok b t ↔ ∃ a, y = .ok a ∧ (f a).run s = .ok b t := by
  cases y <;> simp [run_lift]

theorem bind_eq_error : (x >>= f).run s = .error e t ↔
    x.run s = .error e t ∨ ∃ a u, x.run s = .ok a u ∧ (f a).run u = .error e t := by
  rw [EStateM.run_bind]
  cases x.run s <;> simp

theorem bind_lift_eq_error {y : Except ε α} : ((lift y : EStateM ε σ α) >>= f).run s = .error e t ↔
    (y = .error e ∧ s = t) ∨ ∃ a, y = .ok a ∧ (f a).run s = .error e t := by
  cases y <;> simp [run_lift]

theorem pure_eq_ok {a' : α} : (pure a : EStateM ε σ α).run s = .ok a' t ↔ a = a' ∧ s = t := by
  simp

theorem run_get_bind {k : σ → EStateM ε σ β} : ((get : EStateM ε σ σ) >>= k).run s = (k s).run s := rfl

theorem run_modify_bind {g : σ → σ} {k : PUnit → EStateM ε σ β} :
    ((modify g : EStateM ε σ PUnit) >>= k).run s = (k ⟨⟩).run (g s) := rfl

theorem lift_andThen {y : Except ε α} {g : α → Except ε β} :
    (lift (y >>= g) : EStateM ε σ β) = lift y >>= fun a => lift (g a) := by
  cases y <;> rfl

theorem run_lift_bind_of_ok {y : Except ε α} (hy : y = .ok a) :
    ((lift y : EStateM ε σ α) >>= f).run s = (f a).run s := by
  subst hy
  rfl

theorem after_lift_bind_of_error {y : Except ε α} (hy : y = .error e) :
    after (((lift y : EStateM ε σ α) >>= f).run s) = s := by
  subst hy
  rfl

theorem after_bind_of_ok (h : x.run s = .ok a t) : after ((x >>= f).run s) = after ((f a).run t) := by
  rw [EStateM.run_bind, h]

theorem after_bind_of_error (h : x.run s = .error e t) : after ((x >>= f).run s) = t := by
  rw [EStateM.run_bind, h]
  rfl

theorem after_bind_pure {g : α → β} : after ((x >>= fun a => pure (g a)).run s) = after (x.run s) := by
  rw [EStateM.run_bind]
  cases x.run s <;> rfl

theorem run_attempt : (attempt x).run s =
    match x.run s with | .ok a t => .ok (.ok a) t | .error e t => .ok (.error e) t := rfl

theorem run_onExit {g : σ → σ} : (onExit x g).run s =
    match x.run s with | .ok a t => .ok a (g t) | .error e t => .error e (g t) := rfl

theorem run_onError {g : σ → σ} : (onError x g).run s =
    match x.run s with | .ok a t => .ok a t | .error e t => .error e (g t) := rfl

theorem onError_eq_ok {g : σ → σ} : (onError x g).run s = .ok a t ↔ x.run s = .ok a t := by
  rw [run_onError]
  cases x.run s <;> simp

theorem bind_modify_eq_ok {g : σ → σ} {k : PUnit → EStateM ε σ β} :
    ((modify g : EStateM ε σ PUnit) >>= k).run s = .ok b t ↔ (k ⟨⟩).run (g s) = .ok b t := by
  simp

theorem bind_get_eq_ok {k : σ → EStateM ε σ β} :
    ((get : EStateM ε σ σ) >>= k).run s = .ok b t ↔ (k s).run s = .ok b t := by
  simp

theorem run_forM_nil (f : α → EStateM ε σ PUnit) (s : σ) : (([] : List α).forM f).run s = .ok ⟨⟩ s := rfl

theorem forM_cons (f : α → EStateM ε σ PUnit) (a : α) (xs : List α) :
    (a :: xs).forM f = f a >>= fun _ => xs.forM f := rfl

theorem forM_cons_eq_ok {f : α → EStateM ε σ PUnit} {xs : List α} {r : PUnit} :
    ((a :: xs).forM f).run s = .ok r t ↔ ∃ u, (f a).run s = .ok ⟨⟩ u ∧ (xs.forM f).run u = .ok r t := by
  rw [forM_cons, bind_eq_ok]
  exact ⟨fun ⟨_, u, h⟩ => ⟨u, h⟩, fun ⟨u, h⟩ => ⟨⟨⟩, u, h⟩⟩

theorem forM_append_eq_ok {f : α → EStateM ε σ PUnit} {xs ys : List α} {r : PUnit} :
    ((xs ++ ys).forM f).run s = .ok r t ↔ ∃ u, (xs.forM f).run s = .ok ⟨⟩ u ∧ (ys.forM f).run u = .ok r t := by
  induction xs generalizing s with
  | nil => simp
  | cons x xs ih =>
    simp only [List.cons_append, forM_cons_eq_ok, ih]
    exact ⟨fun ⟨u, hu, v, hv, h⟩ => ⟨v, ⟨u, hu, hv⟩, h⟩, fun ⟨v, ⟨u, hu, hv⟩, h⟩ => ⟨u, hu, v, hv, h⟩⟩

theorem run_forM_append_of_ok {f : α → EStateM ε σ PUnit} {xs ys : List α}
    (h : (xs.forM f).run s = .ok ⟨⟩ t) : ((xs ++ ys).forM f).run s = (ys.forM f).run t := by
  induction xs generalizing s with
  | nil =>
    cases h
    rfl
  | cons x xs ih =>
    obtain ⟨u, hu, hrest⟩ := forM_cons_eq_ok.mp h
    rw [List.cons_append, forM_cons, EStateM.run_bind, hu]
    exact ih hrest

theorem mapM_cons_eq_ok {f : α → EStateM ε σ β} {xs : List α} {bs : List β} :
    ((a :: xs).mapM f).run s = .ok bs t ↔
      ∃ b u bs', (f a).run s = .ok b u ∧ (xs.mapM f).run u = .ok bs' t ∧ bs = b :: bs' := by
  rw [List.mapM_cons, bind_eq_ok]
  simp only [bind_eq_ok, pure_eq_ok]
  constructor
  · rintro ⟨b, u, hb, bs', v, hbs, rfl, rfl⟩
    exact ⟨b, u, bs', hb, hbs, rfl⟩
  · rintro ⟨b, u, bs', hb, hbs, rfl⟩
    exact ⟨b, u, hb, bs', t, hbs, rfl, rfl⟩

end Run

/-! ### Partial correctness -/

/-- From a state with `P` a success ends with `Q` and a failure with `E`. -/
def Triple (P : σ → Prop) (x : EStateM ε σ α) (Q : α → σ → Prop) (E : σ → Prop) : Prop :=
  ∀ s, P s → match x.run s with
    | .ok a t => Q a t
    | .error _ t => E t

namespace Triple
variable {P I E : σ → Prop} {Q : α → σ → Prop} {x : EStateM ε σ α}

theorem ok {s t : σ} {a : α} (h : Triple P x Q E) (hs : P s) (hrun : x.run s = .ok a t) : Q a t := by
  have := h s hs
  rwa [hrun] at this

theorem error {s t : σ} {e : ε} (h : Triple P x Q E) (hs : P s) (hrun : x.run s = .error e t) : E t := by
  have := h s hs
  rwa [hrun] at this

/-- Where both ends have `I`, the program stops with `I`. -/
theorem after {s : σ} (h : Triple P x (fun _ => I) I) (hs : P s) : I (after (x.run s)) := by
  have := h s hs
  cases hrun : x.run s <;> rwa [hrun] at this

theorem pure {a : α} (h : ∀ s, P s → Q a s) : Triple P (pure a : EStateM ε σ α) Q E := h

theorem bind {f : α → EStateM ε σ β} {R : β → σ → Prop} (hx : Triple P x Q E)
    (hf : ∀ a, Triple (Q a) (f a) R E) : Triple P (x >>= f) R E := by
  intro s hs
  rw [EStateM.run_bind]
  cases hrun : x.run s with
  | ok a t => exact hf a t (hx.ok hs hrun)
  | error e t => exact hx.error hs hrun

theorem conseq {P' E' : σ → Prop} {Q' : α → σ → Prop} (h : Triple P x Q E) (hP : ∀ s, P' s → P s)
    (hQ : ∀ a s, Q a s → Q' a s) (hE : ∀ s, E s → E' s) : Triple P' x Q' E' := by
  intro s hs
  cases hrun : x.run s with
  | ok a t => exact hQ a t (h.ok (hP s hs) hrun)
  | error e t => exact hE t (h.error (hP s hs) hrun)

theorem forM {f : α → EStateM ε σ PUnit} {xs : List α} (h : ∀ x ∈ xs, Triple I (f x) (fun _ => I) E) :
    Triple I (xs.forM f) (fun _ => I) E := by
  induction xs with
  | nil => exact pure fun _ hs => hs
  | cons x xs ih =>
    exact (h x (List.mem_cons_self ..)).bind fun _ => ih fun y hy => h y (List.mem_cons_of_mem _ hy)

theorem onExit {g : σ → σ} (hx : Triple P x (fun a s => Q a (g s)) fun s => E (g s)) : Triple P (onExit x g) Q E := by
  intro s hs
  rw [run_onExit]
  cases hrun : x.run s with
  | ok a t => exact hx.ok hs hrun
  | error e t => exact hx.error hs hrun

theorem onError {g : σ → σ} (hx : Triple P x Q fun s => E (g s)) : Triple P (onError x g) Q E := by
  intro s hs
  rw [run_onError]
  cases hrun : x.run s with
  | ok a t => exact hx.ok hs hrun
  | error e t => exact hx.error hs hrun

/-- Each result of a traversal has a property that later steps keep. -/
theorem mapM {f : α → EStateM ε σ β} {xs : List α} {R : β → σ → Prop}
    (h : ∀ x ∈ xs, ∀ done : List β, Triple (fun s => I s ∧ ∀ b ∈ done, R b s) (f x)
      (fun b s => I s ∧ R b s ∧ ∀ b ∈ done, R b s) E) :
    Triple I (xs.mapM f) (fun bs s => I s ∧ ∀ b ∈ bs, R b s) E := by
  have haux : ∀ done : List β, Triple (fun s => I s ∧ ∀ b ∈ done, R b s) (xs.mapM f)
      (fun bs s => I s ∧ (∀ b ∈ bs, R b s) ∧ ∀ b ∈ done, R b s) E := by
    induction xs with
    | nil => exact fun done => pure fun s hs => ⟨hs.1, by simp, hs.2⟩
    | cons x xs ih =>
      intro done
      rw [List.mapM_cons]
      refine (h x (List.mem_cons_self ..) done).bind fun b => ?_
      have hrest := ih (fun y hy => h y (List.mem_cons_of_mem _ hy)) (b :: done)
      refine (hrest.conseq (fun s hs => ?_) (fun _ _ hq => hq) fun _ he => he).bind fun bs => pure fun s hs => ?_
      · exact ⟨hs.1, List.forall_mem_cons.mpr hs.2⟩
      · obtain ⟨hi, hbs, hdone⟩ := hs
        obtain ⟨hb, hdone⟩ := List.forall_mem_cons.mp hdone
        exact ⟨hi, List.forall_mem_cons.mpr ⟨hb, hbs⟩, hdone⟩
  exact (haux []).conseq (fun s hs => ⟨hs, by simp⟩) (fun bs s hs => ⟨hs.1, hs.2.1⟩) fun _ he => he

end Triple

/-! ### What a program may change -/

/-- Wherever the program stops, its state is related to the one that it was started in. -/
def Within (R : σ → σ → Prop) (x : EStateM ε σ α) : Prop := ∀ s, R s (after (x.run s))

namespace Within
variable {R : σ → σ → Prop} {x : EStateM ε σ α}

theorem of_ok {s t : σ} {a : α} (h : Within R x) (hrun : x.run s = .ok a t) : R s t := by
  have := h s
  rwa [hrun] at this

theorem of_error {s t : σ} {e : ε} (h : Within R x) (hrun : x.run s = .error e t) : R s t := by
  have := h s
  rwa [hrun] at this

theorem mono {R' : σ → σ → Prop} (h : Within R x) (hR : ∀ s t, R s t → R' s t) : Within R' x :=
  fun s => hR s _ (h s)

theorem modify {g : σ → σ} (h : ∀ s, R s (g s)) : Within R (modify g : EStateM ε σ PUnit) := h

theorem get_bind {f : σ → EStateM ε σ β} (hf : ∀ s, R s (after ((f s).run s))) :
    Within R ((MonadState.get : EStateM ε σ σ) >>= f) := hf

theorem attempt (hx : Within R x) : Within R (attempt x) := by
  intro s
  have := hx s
  rw [run_attempt]
  cases hrun : x.run s <;> rwa [hrun] at this

section Refl
variable [Std.Refl R]

theorem pure (a : α) : Within R (pure a : EStateM ε σ α) := refl_of R

theorem throw (e : ε) : Within R (throw e : EStateM ε σ α) := refl_of R

theorem get : Within R (get : EStateM ε σ σ) := refl_of R

theorem lift (y : Except ε α) : Within R (lift y : EStateM ε σ α) := by
  intro s
  rw [run_lift]
  cases y <;> exact refl_of R s

end Refl

section Trans
variable [IsTrans σ R]

theorem bind_of_ok {f : α → EStateM ε σ β} (hx : Within R x)
    (hf : ∀ s a t, x.run s = .ok a t → R t (after ((f a).run t))) : Within R (x >>= f) := by
  intro s
  rw [EStateM.run_bind]
  cases hrun : x.run s with
  | error e t => exact hx.of_error hrun
  | ok a t => exact trans_of R (hx.of_ok hrun) (hf s a t hrun)

theorem bind {f : α → EStateM ε σ β} (hx : Within R x) (hf : ∀ a, Within R (f a)) : Within R (x >>= f) :=
  hx.bind_of_ok fun _ a t _ => hf a t

theorem onError {g : σ → σ} (hx : Within R x) (hg : ∀ s, R s (g s)) : Within R (onError x g) := by
  intro s
  rw [run_onError]
  cases hrun : x.run s with
  | error e t => exact trans_of R (hx.of_error hrun) (hg t)
  | ok a t => exact hx.of_ok hrun

variable [Std.Refl R]

theorem lift_bind {y : Except ε α} {f : α → EStateM ε σ β} (hf : ∀ a, y = .ok a → Within R (f a)) :
    Within R (Effect.lift y >>= f) :=
  (lift y).bind_of_ok fun _ a t h => hf a (lift_eq_ok.mp h).1 t

theorem forM {f : α → EStateM ε σ PUnit} {xs : List α} (h : ∀ x ∈ xs, Within R (f x)) : Within R (xs.forM f) := by
  induction xs with
  | nil => exact pure _
  | cons x xs ih =>
    exact (h x (List.mem_cons_self ..)).bind fun _ => ih fun y hy => h y (List.mem_cons_of_mem _ hy)

theorem mapM {f : α → EStateM ε σ β} {xs : List α} (h : ∀ x ∈ xs, Within R (f x)) : Within R (xs.mapM f) := by
  induction xs with
  | nil => exact pure _
  | cons x xs ih =>
    rw [List.mapM_cons]
    refine (h x (List.mem_cons_self ..)).bind fun _ => ?_
    exact (ih fun y hy => h y (List.mem_cons_of_mem _ hy)).bind fun _ => pure _

end Trans
end Within

/-! ### Total correctness -/

/-- From a state with `P` the program succeeds, and ends with `Q`. -/
def Succeeds (P : σ → Prop) (x : EStateM ε σ α) (Q : α → σ → Prop) : Prop :=
  ∀ s, P s → ∃ a t, x.run s = .ok a t ∧ Q a t

namespace Succeeds
variable {P : σ → Prop} {Q : α → σ → Prop} {x : EStateM ε σ α}

theorem pure {a : α} (h : ∀ s, P s → Q a s) : Succeeds P (pure a : EStateM ε σ α) Q :=
  fun s hs => ⟨a, s, rfl, h s hs⟩

theorem modify {g : σ → σ} {R : PUnit → σ → Prop} (h : ∀ s, P s → R ⟨⟩ (g s)) :
    Succeeds P (modify g : EStateM ε σ PUnit) R :=
  fun s hs => ⟨⟨⟩, g s, rfl, h s hs⟩

theorem lift_bind {y : Except ε α} {a : α} {f : α → EStateM ε σ β} {R : β → σ → Prop} (hy : y = .ok a)
    (hf : Succeeds P (f a) R) : Succeeds P (lift y >>= f) R := by
  subst hy
  exact hf

theorem bind {f : α → EStateM ε σ β} {R : β → σ → Prop} (hx : Succeeds P x Q)
    (hf : ∀ a, Succeeds (Q a) (f a) R) : Succeeds P (x >>= f) R := by
  intro s hs
  obtain ⟨a, t, hrun, hq⟩ := hx s hs
  obtain ⟨b, u, hrun', hr⟩ := hf a t hq
  exact ⟨b, u, bind_eq_ok.mpr ⟨a, t, hrun, hrun'⟩, hr⟩

end Succeeds

end Effect
