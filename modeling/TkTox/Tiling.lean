import Mathlib.Data.List.Basic
import Mathlib.Order.Basic
import Mathlib.Tactic.Common

/-!
Intervals `[lo x, hi x)` laid end to end. A list of them tiles `[a, b)` when the first starts at
`a`, each other one where the one before it stops, and the last stops at `b`.
-/

namespace Tiling

variable {α : Type*} {lo hi : α → ℕ} {a b c : ℕ} {x : α} {xs ys : List α}

def Tiles (lo hi : α → ℕ) : ℕ → List α → ℕ → Prop
  | a, [], b => a = b
  | a, x :: xs, b => lo x = a ∧ Tiles lo hi (hi x) xs b

def places (lo hi : α → ℕ) (x : α) : List ℕ := List.range' (lo x) (hi x - lo x)

@[simp] theorem tiles_nil : Tiles lo hi a [] b ↔ a = b := Iff.rfl

@[simp] theorem tiles_cons : Tiles lo hi a (x :: xs) b ↔ lo x = a ∧ Tiles lo hi (hi x) xs b :=
  Iff.rfl

theorem tiles_append : Tiles lo hi a (xs ++ ys) b ↔ ∃ m, Tiles lo hi a xs m ∧ Tiles lo hi m ys b := by
  induction xs generalizing a with
  | nil => simp
  | cons x xs ih => simp [ih, and_assoc]

theorem Tiles.append {m : ℕ} (h : Tiles lo hi a xs m) (h' : Tiles lo hi m ys b) :
    Tiles lo hi a (xs ++ ys) b := tiles_append.mpr ⟨m, h, h'⟩

theorem Tiles.stop_unique (h : Tiles lo hi a xs b) (h' : Tiles lo hi a xs c) : b = c := by
  induction xs generalizing a with
  | nil =>
    rw [tiles_nil] at h h'
    exact h.symm.trans h'
  | cons x xs ih => exact ih h.2 h'.2

theorem Tiles.append_iff {m : ℕ} (h : Tiles lo hi a xs m) :
    Tiles lo hi a (xs ++ ys) b ↔ Tiles lo hi m ys b := by
  rw [tiles_append]
  constructor
  · rintro ⟨k, hk, hy⟩
    rwa [h.stop_unique hk]
  · intro hy
    exact ⟨m, h, hy⟩

theorem Tiles.le (hx : ∀ x ∈ xs, lo x ≤ hi x) (h : Tiles lo hi a xs b) : a ≤ b := by
  induction xs generalizing a with
  | nil => exact Nat.le_of_eq h
  | cons x xs ih =>
    have h1 : hi x ≤ b := ih (fun y hy => hx y (List.mem_cons_of_mem _ hy)) h.2
    have h2 : lo x ≤ hi x := hx x (List.mem_cons_self ..)
    rw [← h.1]
    exact Nat.le_trans h2 h1

theorem Tiles.places (hx : ∀ x ∈ xs, lo x ≤ hi x) (h : Tiles lo hi a xs b) :
    xs.flatMap (places lo hi) = List.range' a (b - a) := by
  induction xs generalizing a with
  | nil =>
    rw [tiles_nil] at h
    simp [h]
  | cons x xs ih =>
    have hxs := fun y hy => hx y (List.mem_cons_of_mem _ hy)
    have h1 : hi x ≤ b := Tiles.le hxs h.2
    have h2 : lo x ≤ hi x := hx x (List.mem_cons_self ..)
    have hs : b - lo x = (hi x - lo x) + (b - hi x) := by omega
    have hm : hi x = lo x + 1 * (hi x - lo x) := by omega
    rw [List.flatMap_cons, ih hxs h.2, ← h.1, hs, ← List.range'_append, ← hm]
    rfl

theorem tiles_of_places {n : ℕ} (hx : ∀ x ∈ xs, lo x < hi x)
    (h : xs.flatMap (places lo hi) = List.range' a n) : Tiles lo hi a xs (a + n) := by
  induction xs generalizing a n with
  | nil =>
    have hn : 0 = n := by simpa using congrArg List.length h
    simp [← hn]
  | cons x xs ih =>
    have h1 := hx x (List.mem_cons_self ..)
    rw [List.flatMap_cons] at h
    have hlen : hi x - lo x ≤ n := by
      have := congrArg List.length h
      simp [Tiling.places] at this
      omega
    have hs : n = (hi x - lo x) + (n - (hi x - lo x)) := by omega
    rw [hs, ← List.range'_append] at h
    obtain ⟨hp, hr⟩ := List.append_inj h (by simp [Tiling.places])
    have hlo : lo x = a := by
      have hpos : hi x - lo x = (hi x - lo x - 1) + 1 := by omega
      rw [Tiling.places, hpos, List.range'_succ, List.range'_succ] at hp
      exact (List.cons.inj hp).1
    have hhi : hi x = a + 1 * (hi x - lo x) := by omega
    rw [← hhi] at hr
    have := ih (fun y hy => hx y (List.mem_cons_of_mem _ hy)) hr
    refine ⟨hlo, ?_⟩
    have hend : hi x + (n - (hi x - lo x)) = a + n := by omega
    rwa [hend] at this

theorem tiles_iff_places (lo hi : α → ℕ) (xs : List α) {n : ℕ} (hx : ∀ x ∈ xs, lo x < hi x) :
    Tiles lo hi a xs (a + n) ↔ xs.flatMap (places lo hi) = List.range' a n := by
  constructor
  · intro h
    have := h.places fun x hm => Nat.le_of_lt (hx x hm)
    rwa [Nat.add_sub_cancel_left] at this
  · exact tiles_of_places hx

end Tiling
