import Mathlib.Data.Fin.Basic
import Mathlib.Logic.Function.Basic
import Mathlib.Tactic

/-!
A ring buffer as the list it stands for: `count` cells of a fixed array, from `head` on and
around its end.
-/

namespace TkTox.Ring

variable {α : Type*} {n : ℕ} [NeZero n] {m : Fin n → α} {head count : ℕ}

def idx (n : ℕ) [NeZero n] (i : ℕ) : Fin n := ⟨i % n, Nat.mod_lt _ (NeZero.pos n)⟩

def entries (m : Fin n → α) (head count : ℕ) : List α :=
  (List.range count).map fun r => m (idx n (head + r))

theorem idx_eq_iff {i j : ℕ} : idx n i = idx n j ↔ i % n = j % n := by
  simp only [idx, Fin.mk.injEq]

theorem idx_inj {i j : ℕ} (hi : i < n) (hj : j < n) (h : idx n (head + i) = idx n (head + j)) :
    i = j := by
  rw [idx_eq_iff] at h
  have hm : i ≡ j [MOD n] := Nat.ModEq.add_left_cancel' head h
  rw [Nat.ModEq, Nat.mod_eq_of_lt hi, Nat.mod_eq_of_lt hj] at hm
  exact hm

@[simp] theorem entries_length : (entries m head count).length = count := by
  simp [entries]

@[simp] theorem entries_zero : entries m head 0 = [] := rfl

theorem entries_succ : entries m head (count + 1) =
    entries m head count ++ [m (idx n (head + count))] := by
  simp [entries, List.range_succ]

theorem mem_entries {x : α} : x ∈ entries m head count ↔
    ∃ r < count, m (idx n (head + r)) = x := by
  simp [entries]

theorem entries_congr {m' : Fin n → α}
    (h : ∀ r < count, m' (idx n (head + r)) = m (idx n (head + r))) :
    entries m' head count = entries m head count :=
  List.map_congr_left fun r hr => h r (List.mem_range.mp hr)

variable (m head) in
theorem entries_push (hc : count < n) (x : α) :
    entries (Function.update m (idx n (head + count)) x) head (count + 1) =
      entries m head count ++ [x] := by
  rw [entries_succ, Function.update_self]
  congr 1
  refine entries_congr fun r hr => ?_
  refine Function.update_of_ne (fun h => ?_) _ _
  have := idx_inj (by omega) hc h
  omega

theorem entries_pop : entries m ((head + 1) % n) (count - 1) = (entries m head count).tail := by
  cases count with
  | zero => rfl
  | succ k =>
    simp only [entries, Nat.add_sub_cancel, List.range_succ_eq_map, List.map_cons, List.tail_cons,
      List.map_map]
    refine List.map_congr_left fun r _ => ?_
    have h : idx n ((head + 1) % n + r) = idx n (head + (r + 1)) := by
      rw [idx_eq_iff, Nat.mod_add_mod, Nat.add_assoc, Nat.add_comm 1 r]
    simp [h]

theorem entries_update_free {i : ℕ} (hc : count ≤ i) (hi : i < n) (x : α) :
    entries (Function.update m (idx n (head + i)) x) head count = entries m head count := by
  refine entries_congr fun r hr => Function.update_of_ne (fun h => ?_) _ _
  have := idx_inj (by omega) hi h
  omega

def compactStep (evict : α → Bool) (blank : α) (head : ℕ) (st : (Fin n → α) × ℕ) (r : ℕ) :
    (Fin n → α) × ℕ :=
  let i := idx n (head + r)
  if evict (st.1 i) then (Function.update st.1 i blank, st.2)
  else if st.2 ≠ r then
    let copied := Function.update st.1 (idx n (head + st.2)) (st.1 i)
    (Function.update copied i blank, st.2 + 1)
  else (st.1, st.2 + 1)

structure Compacted (evict : α → Bool) (m : Fin n → α) (head r : ℕ) (st : (Fin n → α) × ℕ) :
    Prop where
  kept : entries st.1 head st.2 = (entries m head r).filter fun x => !evict x
  le : st.2 ≤ r
  rest : ∀ j < n, r ≤ j → st.1 (idx n (head + j)) = m (idx n (head + j))

variable {evict : α → Bool} {blank : α} {r : ℕ} {st : (Fin n → α) × ℕ}

theorem Compacted.step (h : Compacted evict m head r st) (hr : r < n) :
    Compacted evict m head (r + 1) (compactStep evict blank head st r) := by
  have hcell := h.rest r hr le_rfl
  have hle := h.le
  have hnot {i j : ℕ} (hi : i < n) (hj : j < n) (hij : i ≠ j) :
      idx n (head + j) ≠ idx n (head + i) := fun he => hij (idx_inj hj hi he).symm
  unfold compactStep
  dsimp only
  rw [hcell]
  split_ifs with he hw
  · constructor
    case kept =>
      rw [entries_update_free h.le hr, h.kept, entries_succ, List.filter_append]
      simp [he]
    case le => exact hle.trans (Nat.le_succ r)
    case rest =>
      intro j hj hrj
      dsimp only
      rw [Function.update_of_ne (hnot hr hj (by omega))]
      exact h.rest j hj (by omega)
  · constructor
    case kept =>
      dsimp only
      rw [entries_update_free (by omega) hr, entries_push _ _ (by omega), h.kept, entries_succ,
        List.filter_append]
      simp [he]
    case le => exact Nat.succ_le_succ hle
    case rest =>
      intro j hj hrj
      dsimp only
      rw [Function.update_of_ne (hnot hr hj (by omega)),
        Function.update_of_ne (hnot (by omega) hj (by omega))]
      exact h.rest j hj (by omega)
  · rw [not_not] at hw
    constructor
    case kept =>
      dsimp only
      rw [entries_succ, h.kept, entries_succ, List.filter_append, hw, hcell]
      simp [he]
    case le => exact Nat.succ_le_succ hle
    case rest => exact fun j hj hrj => h.rest j hj (by omega)

variable (evict blank m head) in
theorem compacted_foldl (hc : count ≤ n) : Compacted evict m head count
    ((List.range count).foldl (compactStep evict blank head) (m, 0)) := by
  induction count with
  | zero => exact ⟨rfl, le_rfl, fun _ _ _ => rfl⟩
  | succ k ih =>
    rw [List.range_succ, List.foldl_append]
    exact (ih (by omega)).step hc

end TkTox.Ring
