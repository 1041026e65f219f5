import Mathlib.Data.Nat.ModEq
import Mathlib.Data.List.Basic

/-! Circular memory, and records laid end to end in it. A memory of size `n` is read and written at
    positions that grow without bound, each taken modulo `n`; its window at a position is the memory
    as seen from there. A layout says how many cells a record takes and what they hold. -/

namespace Circular

section Memory
variable {β : Type*}

/-- The memory as seen from position `c`: cell `j` of the window is `j` past `c`. -/
def window (n : Nat) (m : Nat → β) (c : Nat) : Nat → β := fun j => m ((c + j) % n)

/-- Store `bs` at position `pos`: each of the next cells, around the end of the memory. -/
def store (n : Nat) (m : Nat → β) (pos : Nat) (bs : List β) : Nat → β := fun a =>
  (bs[(a + (n - pos % n)) % n]?).getD (m a)

def cells (w : Nat → β) (o k : Nat) : List β := (List.range k).map fun i => w (o + i)

variable {n c o pos : Nat} {m : Nat → β} {w w' : Nat → β} {bs : List β}

@[simp] theorem length_cells {k : Nat} : (cells w o k).length = k := by simp [cells]

theorem cells_congr {k : Nat} (h : ∀ j, o ≤ j → j < o + k → w j = w' j) : cells w o k = cells w' o k := by
  unfold cells
  refine List.map_congr_left fun i hi => h _ (by omega) ?_
  have := List.mem_range.mp hi
  omega

theorem take_cells {j k : Nat} (h : j ≤ k) : (cells w o k).take j = cells w o j := by
  unfold cells
  rw [← List.map_take, List.take_range, Nat.min_eq_left h]

theorem cells_eq_iff {k : Nat} : cells w o k = bs ↔ bs.length = k ∧ ∀ i (h : i < bs.length), w (o + i) = bs[i] := by
  constructor
  · rintro rfl
    exact ⟨length_cells, fun i hi => by simp [cells]⟩
  · rintro ⟨rfl, h⟩
    exact List.ext_getElem (by simp) fun i h1 h2 => by simpa [cells] using h i h2

theorem window_add (r : Nat) : window n m (c + r) = fun j => window n m c (r + j) := by
  funext j
  simp [window, Nat.add_assoc]

theorem window_mod {k : Nat} (hk : n ∣ k) : window n m (c % k) = window n m c := by
  funext j
  unfold window
  rw [Nat.add_mod, Nat.mod_mod_of_dvd c hk, ← Nat.add_mod]

theorem window_store (hpos : pos % n = (c + o) % n) (hfit : o + bs.length ≤ n) {j : Nat} (hj : j < n) :
    window n (store n m pos bs) c j = if o ≤ j then (bs[j - o]?).getD (window n m c j) else window n m c j := by
  have hp : pos % n < n := Nat.mod_lt _ (by omega)
  -- The distance of cell `j` from the stored position, around the end of the memory.
  have hdist : ((c + j) % n + (n - pos % n)) + (c + o) ≡ c + j [MOD n] := by
    have h1 : (c + j) % n + (n - pos % n) + (c + o) ≡ c + j + (n - pos % n) + pos % n [MOD n] :=
      ((Nat.mod_modEq _ _).add_right _).add (by rw [hpos]; exact (Nat.mod_modEq _ _).symm)
    have h2 : c + j + (n - pos % n) + pos % n = c + j + n := by omega
    rw [h2] at h1
    exact h1.trans (by simp [Nat.ModEq])
  show (bs[((c + j) % n + (n - pos % n)) % n]?).getD (m ((c + j) % n)) = _
  by_cases hoj : o ≤ j
  · have hd : ((c + j) % n + (n - pos % n)) % n = j - o := by
      have : (c + j) % n + (n - pos % n) ≡ j - o [MOD n] :=
        Nat.ModEq.add_right_cancel' (c + o) (hdist.trans (by rw [show j - o + (c + o) = c + j by omega]))
      rw [this, Nat.mod_eq_of_lt (by omega)]
    rw [hd, if_pos hoj]
    rfl
  · have hd : ((c + j) % n + (n - pos % n)) % n = j + n - o := by
      have : (c + j) % n + (n - pos % n) ≡ j + n - o [MOD n] :=
        Nat.ModEq.add_right_cancel' (c + o) (hdist.trans (by
          rw [show j + n - o + (c + o) = c + j + n by omega]
          simp [Nat.ModEq]))
      rw [this, Nat.mod_eq_of_lt (by omega)]
    rw [hd, if_neg hoj, List.getElem?_eq_none (by omega)]
    rfl

theorem cells_window_store (bs : List β) (hpos : pos % n = (c + o) % n) (hfit : o + bs.length ≤ n) :
    cells (window n (store n m pos bs) c) o bs.length = bs := by
  refine cells_eq_iff.mpr ⟨rfl, fun i hi => ?_⟩
  rw [window_store hpos hfit (by omega), if_pos (by omega)]
  simp [hi]

theorem window_store_of_not_mem (hpos : pos % n = (c + o) % n) (hfit : o + bs.length ≤ n) {j : Nat} (hj : j < n)
    (hne : j < o ∨ o + bs.length ≤ j) : window n (store n m pos bs) c j = window n m c j := by
  rw [window_store hpos hfit hj]
  split
  · rw [List.getElem?_eq_none (by omega)]
    rfl
  · rfl

end Memory

/-- How many cells a record takes, and what they hold; what they hold depends on these cells only. -/
structure Layout (α β : Type*) where
  span : α → Nat
  Holds : (Nat → β) → α → Prop
  congr : ∀ {w w' : Nat → β} {x : α}, (∀ j < span x, w j = w' j) → Holds w x → Holds w' x

namespace Layout
variable {α β : Type*} (L : Layout α β)

def extent (xs : List α) : Nat := (xs.map L.span).sum

/-- The window holds the records of the list, end to end from its first cell. -/
def Tiled : (Nat → β) → List α → Prop
  | _, [] => True
  | w, x :: xs => L.Holds w x ∧ Tiled (fun j => w (L.span x + j)) xs

variable {L} {w w' : Nat → β} {x y : α} {xs ys : List α}

@[simp] theorem extent_nil : L.extent [] = 0 := rfl

@[simp] theorem extent_cons : L.extent (x :: xs) = L.span x + L.extent xs := by simp [extent]

@[simp] theorem extent_append : L.extent (xs ++ ys) = L.extent xs + L.extent ys := by simp [extent]

theorem extent_congr (h : xs.map L.span = ys.map L.span) : L.extent xs = L.extent ys := by
  unfold extent
  rw [h]

theorem extent_take_add_drop (xs : List α) (i : Nat) : L.extent (xs.take i) + L.extent (xs.drop i) = L.extent xs := by
  rw [← extent_append, List.take_append_drop]

theorem Tiled.congr : ∀ {xs : List α} {w w' : Nat → β}, (∀ j < L.extent xs, w j = w' j) → L.Tiled w xs →
    L.Tiled w' xs
  | [], _, _, _, _ => trivial
  | x :: xs, w, w', h, ⟨hx, hxs⟩ => by
    rw [extent_cons] at h
    exact ⟨L.congr (fun j hj => h j (by omega)) hx, Tiled.congr (fun j hj => h _ (by omega)) hxs⟩

theorem tiled_append : L.Tiled w (xs ++ ys) ↔ L.Tiled w xs ∧ L.Tiled (fun j => w (L.extent xs + j)) ys := by
  induction xs generalizing w with
  | nil => simp [Tiled]
  | cons x xs ih => simp only [List.cons_append, Tiled, ih, extent_cons, Nat.add_assoc, and_assoc]

theorem Tiled.holds (h : L.Tiled w (xs ++ x :: ys)) : L.Holds (fun j => w (L.extent xs + j)) x :=
  (tiled_append.mp h).2.1

/-- Rewriting the cells of one record, and no others, changes that record only. -/
theorem Tiled.replace (h : L.Tiled w (xs ++ x :: ys)) (hspan : L.span y = L.span x)
    (hy : L.Holds (fun j => w' (L.extent xs + j)) y)
    (hne : ∀ j < L.extent (xs ++ x :: ys), j < L.extent xs ∨ L.extent xs + L.span x ≤ j → w' j = w j) :
    L.Tiled w' (xs ++ y :: ys) := by
  rw [extent_append, extent_cons] at hne
  obtain ⟨hxs, -, hys⟩ := tiled_append.mp h
  refine tiled_append.mpr ⟨hxs.congr fun j hj => (hne j (by omega) (.inl hj)).symm, hy, ?_⟩
  rw [hspan]
  exact hys.congr fun j hj => (hne _ (by omega) (.inr (by omega))).symm

end Layout
end Circular
