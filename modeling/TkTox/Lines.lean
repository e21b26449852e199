import Mathlib.Data.List.TakeWhile
import TkTox.Bytes

/-!
A text file read with `fgets`: a line longer than the buffer comes back in pieces.
-/

namespace TkTox

def fgets (size : ℕ) (p : Bytes) : Bytes × Bytes :=
  let w := p.take (size - 1)
  let n := (w.takeWhile (· ≠ 10)).length
  p.splitAt (if n < w.length then n + 1 else n)

-- `while (fgets(…))`; every call takes at least one byte, so the length bounds the calls.
def fgetsLoop (size : ℕ) : ℕ → Bytes → List Bytes
  | 0, _ => []
  | n + 1, p => if p = [] then [] else (fgets size p).1 :: fgetsLoop size n (fgets size p).2

def fgetsLines (size : ℕ) (p : Bytes) : List Bytes := fgetsLoop size p.length p

variable {size : ℕ} {l rest : Bytes}

theorem fgets_short (hl : (10 : UInt8) ∉ l) (hs : l.length + 1 ≤ size - 1) :
    fgets size (l ++ 10 :: rest) = (l ++ [10], rest) := by
  have htw : (l ++ 10 :: rest.take (size - 1 - l.length - 1)).takeWhile (· ≠ 10) = l := by
    rw [List.takeWhile_append_of_pos fun b hb => by
      rw [decide_eq_true_eq]
      exact fun he => hl (he ▸ hb)]
    simp
  have hw : (l ++ 10 :: rest).take (size - 1) = l ++ 10 :: rest.take (size - 1 - l.length - 1) := by
    rw [List.take_append, List.take_of_length_le (by omega)]
    congr 1
    rw [List.take_cons (by omega)]
  simp only [fgets, hw, htw]
  rw [if_pos (by simp), List.splitAt_eq]
  simp [List.take_append, List.drop_append]

theorem fgets_long (hl : (10 : UInt8) ∉ l) (hs : size - 1 ≤ l.length) :
    fgets size (l ++ rest) = (l.take (size - 1), l.drop (size - 1) ++ rest) := by
  have hw : (l ++ rest).take (size - 1) = l.take (size - 1) := List.take_append_of_le_length hs
  have htw : (l.take (size - 1)).takeWhile (· ≠ 10) = l.take (size - 1) := by
    rw [List.takeWhile_eq_self_iff]
    intro b hb
    rw [decide_eq_true_eq]
    exact fun he => hl (he ▸ List.mem_of_mem_take hb)
  simp only [fgets, hw, htw]
  rw [if_neg (lt_irrefl _), List.splitAt_eq, List.length_take_of_le hs, hw,
    List.drop_append_of_le_length hs]

theorem fgets_snd_length (hs : 2 ≤ size) (b : UInt8) (p : Bytes) :
    (fgets size (b :: p)).2.length ≤ p.length := by
  simp only [fgets, List.splitAt_eq, List.length_drop, List.length_cons]
  split_ifs with h
  · omega
  · have hpos : 0 < ((b :: p).take (size - 1)).length := by
      rw [List.length_take, List.length_cons]
      omega
    omega

theorem fgetsLoop_fuel (hs : 2 ≤ size) {n m : ℕ} {p : Bytes} (hn : p.length ≤ n)
    (hm : p.length ≤ m) : fgetsLoop size n p = fgetsLoop size m p := by
  induction n generalizing m p with
  | zero =>
    have hp : p = [] := List.eq_nil_of_length_eq_zero (by omega)
    subst hp
    cases m <;> rfl
  | succ n ih =>
    cases p with
    | nil => cases m <;> rfl
    | cons b p =>
      have hlt := fgets_snd_length hs b p
      rw [List.length_cons] at hn hm
      obtain ⟨m, rfl⟩ := Nat.exists_eq_add_one_of_ne_zero (show m ≠ 0 by omega)
      simp only [fgetsLoop]
      rw [ih (m := m) (by omega) (by omega)]

theorem fgetsLines_cons (hs : 2 ≤ size) {p : Bytes} (hp : p ≠ []) :
    fgetsLines size p = (fgets size p).1 :: fgetsLines size (fgets size p).2 := by
  cases p with
  | nil => exact absurd rfl hp
  | cons b p =>
    have hlt := fgets_snd_length hs b p
    rw [fgetsLines, List.length_cons, fgetsLoop, if_neg hp, fgetsLines,
      fgetsLoop_fuel hs hlt le_rfl]

-- A line comes back in one piece if it fits the buffer, else in several; what follows the line
-- is read from its own start.
theorem fgetsLines_pieces (hs : 2 ≤ size) (hl : (10 : UInt8) ∉ l) :
    ∃ ps : List Bytes, (∀ rest, fgetsLines size (l ++ 10 :: rest) = ps ++ fgetsLines size rest) ∧
      ps.flatten = l ++ [10] ∧ (∀ p ∈ ps, p ≠ []) ∧ (l.length + 1 ≤ size - 1 → ps = [l ++ [10]]) := by
  induction hn : l.length using Nat.strong_induction_on generalizing l with
  | _ n ih =>
    by_cases hfit : l.length + 1 ≤ size - 1
    · refine ⟨[l ++ [10]], fun rest => ?_, by simp, by simp, fun _ => rfl⟩
      rw [fgetsLines_cons hs (by simp), fgets_short hl hfit]
      rfl
    · obtain ⟨ps, h1, h2, h3, -⟩ := ih (l.drop (size - 1)).length
        (by rw [List.length_drop]; omega) (fun hm => hl (List.mem_of_mem_drop hm)) rfl
      refine ⟨l.take (size - 1) :: ps, fun rest => ?_, ?_, ?_, fun h => absurd h (by omega)⟩
      · rw [fgetsLines_cons hs (by simp), fgets_long hl (by omega), h1]
        rfl
      · rw [List.flatten_cons, h2, ← List.append_assoc, List.take_append_drop]
      · intro p hp
        rcases List.mem_cons.mp hp with rfl | hp
        · intro he
          have := congrArg List.length he
          rw [List.length_take, List.length_nil] at this
          omega
        · exact h3 p hp

theorem fgetsLines_append (hs : 2 ≤ size) (hl : (10 : UInt8) ∉ l) (rest : Bytes) :
    fgetsLines size (l ++ [10] ++ rest) = fgetsLines size (l ++ [10]) ++ fgetsLines size rest := by
  obtain ⟨ps, h, -⟩ := fgetsLines_pieces hs hl
  rw [List.append_assoc, List.singleton_append, h rest, h []]
  simp [fgetsLines, fgetsLoop]

theorem fgetsLines_fit (hl : (10 : UInt8) ∉ l) (hfit : l.length + 1 ≤ size - 1) :
    fgetsLines size (l ++ [10]) = [l ++ [10]] := by
  have hs : 2 ≤ size := by omega
  obtain ⟨ps, h, -, -, hps⟩ := fgetsLines_pieces hs hl
  rw [h [], hps hfit]
  rfl

theorem mem_of_fgetsLines (hs : 2 ≤ size) (hl : (10 : UInt8) ∉ l) {p : Bytes}
    (hp : p ∈ fgetsLines size (l ++ [10])) : p ≠ [] ∧ ∀ b ∈ p, b ∈ l ++ [10] := by
  obtain ⟨ps, h, hflat, hne, -⟩ := fgetsLines_pieces hs hl
  have hps : fgetsLines size (l ++ [10]) = ps := by
    rw [h []]
    simp [fgetsLines, fgetsLoop]
  rw [hps] at hp
  refine ⟨hne p hp, fun b hb => ?_⟩
  rw [← hflat]
  exact List.mem_flatten.mpr ⟨p, hp, hb⟩

end TkTox
