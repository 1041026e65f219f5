import Mathlib.Data.List.Basic
import Mathlib.Data.Option.Basic

/-! Deterministic transition systems: `step s a` is the state after action `a`, or `none` where `a` is
    not enabled. A run is a list of actions, so every interleaving of the parties of a system is a run
    of the system whose actions are theirs. -/

namespace Steps

variable {σ α : Type*}

def run (step : σ → α → Option σ) : σ → List α → Option σ
  | s, [] => some s
  | s, a :: rest => (step s a).bind fun t => run step t rest

section Run
variable {step : σ → α → Option σ} {s u : σ} {a : α} {as : List α}

theorem run_cons : run step s (a :: as) = (step s a).bind fun t => run step t as := rfl

theorem run_cons_eq_some : run step s (a :: as) = some u ↔ ∃ t, step s a = some t ∧ run step t as = some u := by
  rw [run_cons, Option.bind_eq_some_iff]

theorem run_append {bs : List α} : run step s (as ++ bs) = (run step s as).bind fun t => run step t bs := by
  induction as generalizing s with
  | nil => rfl
  | cons a as ih =>
    rw [List.cons_append, run_cons, run_cons, Option.bind_assoc]
    exact congrArg _ (funext fun t => ih)

end Run

inductive Reachable (step : σ → α → Option σ) (init : σ) : σ → Prop where
  | init : Reachable step init init
  | step {s t : σ} {a : α} : Reachable step init s → step s a = some t → Reachable step init t

namespace Reachable
variable {step : σ → α → Option σ} {init s : σ}

theorem of_run {as : List α} {t : σ} (hs : Reachable step init s) (h : run step s as = some t) :
    Reachable step init t := by
  induction as generalizing s with
  | nil => cases h; exact hs
  | cons a as ih =>
    obtain ⟨u, hu, h⟩ := run_cons_eq_some.mp h
    exact ih (hs.step hu) h

/-- A property that holds at the start and that every step keeps holds in every reachable state. -/
theorem inv {I : σ → Prop} (h0 : I init) (hstep : ∀ s a t, I s → step s a = some t → I t)
    (hs : Reachable step init s) : I s := by
  induction hs with
  | init => exact h0
  | step _ h ih => exact hstep _ _ _ ih h

end Reachable

/-- A property that every step of a run keeps, when each action is one that `P` allows in the state it
    is taken in. -/
theorem run_inv {step : σ → α → Option σ} {I : σ → Prop} {P : σ → α → Prop}
    (hstep : ∀ s a t, I s → P s a → step s a = some t → I t) :
    ∀ {as : List α} {s t : σ}, I s → run step s as = some t →
      (∀ pre a post u, as = pre ++ a :: post → run step s pre = some u → P u a) → I t
  | [], s, t, hs, h, _ => by cases h; exact hs
  | a :: as, s, t, hs, h, hP => by
    obtain ⟨u, hu, h⟩ := run_cons_eq_some.mp h
    refine run_inv hstep (hstep s a u hs (hP [] a as s rfl rfl) hu) h fun pre b post v heq hv => ?_
    exact hP (a :: pre) b post v (by rw [heq, List.cons_append]) (run_cons_eq_some.mpr ⟨u, hu, hv⟩)

/-! ### Along a list -/

/-- A property of each element and of those before it. -/
def AtEach (P : List α → α → Prop) (xs : List α) : Prop := ∀ pre x post, xs = pre ++ x :: post → P pre x

namespace AtEach
variable {P : List α → α → Prop} {xs ys : List α}

theorem nil : AtEach P [] := fun pre x post h => by simp at h

theorem concat (h : AtEach P xs) (x : α) (hx : P xs x) : AtEach P (xs ++ [x]) := by
  intro pre y post hsplit
  rcases List.eq_nil_or_concat post with rfl | ⟨post, last, rfl⟩
  · obtain ⟨rfl, hy⟩ := List.append_inj' hsplit rfl
    obtain rfl := List.singleton_inj.mp hy
    exact hx
  · have hsplit' : xs ++ [x] = (pre ++ y :: post) ++ [last] := by rw [hsplit]; simp
    obtain ⟨rfl, -⟩ := List.append_inj' hsplit' rfl
    exact h pre y post rfl

theorem of_prefix (h : AtEach P xs) (hle : ys <+: xs) : AtEach P ys := by
  obtain ⟨post, rfl⟩ := hle
  rintro pre x post' rfl
  exact h pre x (post' ++ post) (by simp)

end AtEach
end Steps
