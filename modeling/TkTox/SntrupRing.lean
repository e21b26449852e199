import TkTox.CoeffArray
import TkTox.SntrupCodec

/-!
The ring arithmetic of `sntrup761.c`: the products modulo 3 and modulo `q` are products modulo
`X ^ p - X - 1`.
-/

open CoeffArray

namespace TkTox.Sntrup

def fqRecip (a1 : ℤ) : ℤ := (List.range (q - 3)).foldl (fun ai _ => fqFreeze (a1 * ai)) a1

def product (freeze : ℤ → ℤ) (f g : ℕ → ℤ) (i : ℕ) : ℤ :=
  if i < p then (List.range (i + 1)).foldl (fun result j => freeze (result + f j * g (i - j))) 0
  else (List.range' (i - p + 1) (2 * p - 1 - i)).foldl (fun result j => freeze (result + f j * g (i - j))) 0

def reduceStep (freeze : ℤ → ℤ) (fg : ℕ → ℤ) (i : ℕ) : ℕ → ℤ :=
  let fg1 := Function.update fg (i - p) (freeze (fg (i - p) + fg i))
  Function.update fg1 (i - p + 1) (freeze (fg1 (i - p + 1) + fg1 i))

def reduce (freeze : ℤ → ℤ) (fg : ℕ → ℤ) : ℕ → ℤ :=
  (List.range (p - 1)).foldl (fun fg k => reduceStep freeze fg (p + p - 2 - k)) fg

def mult (freeze : ℤ → ℤ) (f g : ℕ → ℤ) : ℕ → ℤ := reduce freeze (product freeze f g)

def r3Mult (f g : ℕ → ℤ) : ℕ → ℤ := mult f3Freeze f g

def rqMultSmall (f g : ℕ → ℤ) : ℕ → ℤ := mult fqFreeze f g

def rqMult3 (f : ℕ → ℤ) (i : ℕ) : ℤ := fqFreeze (3 * f i)

def r3FromRq (r : ℕ → ℤ) (i : ℕ) : ℤ := f3Freeze (r i)

def round (a : ℕ → ℤ) (i : ℕ) : ℤ := a i - f3Freeze (a i)

structure Freezes (freeze : ℤ → ℤ) (N : ℕ) (b B : ℤ) : Prop where
  cast : ∀ x, |x| ≤ B → (freeze x : ZMod N) = x
  le : ∀ x, |x| ≤ B → |freeze x| ≤ b

theorem f3_freezes : Freezes f3Freeze 3 1 (2 ^ 15 - 1) where
  cast x hx := by
    obtain ⟨h1, h2⟩ := abs_le.mp hx
    rw [f3Freeze_eq (by omega) (by omega), ZMod.intCast_eq_intCast_iff, Int.ModEq]
    omega
  le x hx := by
    obtain ⟨h1, h2⟩ := abs_le.mp hx
    rw [f3Freeze_eq (by omega) (by omega), abs_le]
    omega

theorem fq_freezes : Freezes fqFreeze q q12 (2 ^ 31 - 2 ^ 12) where
  cast x hx := by
    have hq12 : (q12 : ℤ) = 2295 := rfl
    have hq : (q : ℤ) = 4591 := rfl
    obtain ⟨h1, h2⟩ := abs_le.mp hx
    rw [fqFreeze_eq (by omega) (by omega), ZMod.intCast_eq_intCast_iff, Int.ModEq, hq, hq12]
    omega
  le x hx := by
    have hq12 : (q12 : ℤ) = 2295 := rfl
    have hq : (q : ℤ) = 4591 := rfl
    obtain ⟨h1, h2⟩ := abs_le.mp hx
    rw [fqFreeze_eq (by omega) (by omega), abs_le, hq, hq12]
    omega

section

variable {freeze : ℤ → ℤ} {N : ℕ} {b B : ℤ} {f g fg : ℕ → ℤ}

theorem Freezes.foldl (h : Freezes freeze N b B) {l : List ℕ} {x : ℕ → ℤ} {r c : ℤ} (hbc : b + c ≤ B)
    (hr : |r| ≤ b) (hx : ∀ j ∈ l, |x j| ≤ c) :
    |l.foldl (fun result j => freeze (result + x j)) r| ≤ b ∧
      ((l.foldl (fun result j => freeze (result + x j)) r : ℤ) : ZMod N) =
        r + (l.map fun j => (x j : ZMod N)).sum := by
  induction l generalizing r with
  | nil => simp [hr]
  | cons j l ih =>
    have hle : |r + x j| ≤ B := by
      have h1 := abs_add_le r (x j)
      have h2 := hx j (by simp)
      omega
    obtain ⟨h1, h2⟩ := ih (h.le _ hle) fun i hi => hx i (by simp [hi])
    rw [List.foldl_cons]
    refine ⟨h1, ?_⟩
    rw [h2, h.cast _ hle, List.map_cons, List.sum_cons]
    push_cast
    ring

theorem sum_range' (a n : ℕ) (x : ℕ → ZMod N) :
    ((List.range' a n).map x).sum = ∑ j ∈ Finset.Ico a (a + n), x j := by
  have h : (Finset.Ico a (a + n)).1 = (List.range' a n : Multiset ℕ) := by
    rw [← Nat.add_sub_cancel_left (n := a) (m := n)]
    simp only [Nat.add_sub_cancel_left]
    change ((List.range' a (a + n - a) : List ℕ) : Multiset ℕ) = _
    rw [Nat.add_sub_cancel_left]
  rw [Finset.sum, h, Multiset.map_coe, Multiset.sum_coe]

theorem Freezes.product (h : Freezes freeze N b B) (hb : 0 ≤ b) (hB : b + b ≤ B) (hf : ∀ i < p, |f i| ≤ b)
    (hg : ∀ i < p, |g i| ≤ 1) {i : ℕ} (hi : i < 2 * p - 1) :
    |product freeze f g i| ≤ b ∧ ((product freeze f g i : ℤ) : ZMod N) =
      conv p (fun i => (f i : ZMod N)) (fun i => (g i : ZMod N)) i := by
  have hterm : ∀ j, j < p → i - j < p → |f j * g (i - j)| ≤ b := by
    intro j hj hij
    rw [abs_mul]
    have h1 := hf j hj
    have h2 := hg (i - j) hij
    nlinarith [abs_nonneg (f j), abs_nonneg (g (i - j))]
  have hr : |(0 : ℤ)| ≤ b := by simpa using hb
  rw [Sntrup.product, conv]
  by_cases hp : i < p
  · rw [if_pos hp]
    obtain ⟨h1, h2⟩ := h.foldl (x := fun j => f j * g (i - j)) (l := List.range (i + 1)) hB hr
      fun j hj => hterm j (by have := List.mem_range.mp hj; omega) (by omega)
    refine ⟨h1, ?_⟩
    rw [h2, List.range_eq_range', sum_range', show i + 1 - p = 0 by omega, show min (i + 1) p = i + 1 by omega]
    simp
  · rw [if_neg hp]
    obtain ⟨h1, h2⟩ := h.foldl (x := fun j => f j * g (i - j)) (l := List.range' (i - p + 1) (2 * p - 1 - i)) hB hr
      fun j hj => by
        obtain ⟨hj1, hj2⟩ := List.mem_range'_1.mp hj
        exact hterm j (by omega) (by omega)
    refine ⟨h1, ?_⟩
    rw [h2, sum_range', show i - p + 1 = i + 1 - p by omega, show i + 1 - p + (2 * p - 1 - i) = min (i + 1) p by omega]
    simp

structure Reduced (N : ℕ) (b : ℤ) (fg0 : ℕ → ℤ) (k : ℕ) (fg : ℕ → ℤ) : Prop where
  high : ∀ i, p ≤ i → fg i = fg0 i
  le : ∀ i < p, |fg i| ≤ b
  cast : ∀ i < p, (fg i : ZMod N) = fg0 i + (if 2 * p - 1 - k ≤ i + p ∧ i + 1 < p then (fg0 (i + p) : ZMod N) else 0) +
    if 2 * p - k ≤ i + p ∧ 0 < i then (fg0 (i + p - 1) : ZMod N) else 0

theorem Reduced.init (hfg : ∀ i < 2 * p - 1, |fg i| ≤ b) : Reduced N b fg 0 fg where
  high _ _ := rfl
  le i hi := hfg i (by omega)
  cast i hi := by
    rw [if_neg (by omega), if_neg (by omega), add_zero, add_zero]

theorem Reduced.step (h : Freezes freeze N b B) (hB : b + b ≤ B) {fg0 : ℕ → ℤ} (hfg : ∀ i < 2 * p - 1, |fg0 i| ≤ b)
    {k : ℕ} (hk : k < p - 1) (hr : Reduced N b fg0 k fg) :
    Reduced N b fg0 (k + 1) (reduceStep freeze fg (p + p - 2 - k)) := by
  obtain ⟨u, hu⟩ : ∃ u, u + 2 + k = p := ⟨p - 2 - k, by omega⟩
  have hidx : p + p - 2 - k = u + p := by omega
  have hsub : u + p - p = u := by omega
  rw [hidx, reduceStep, hsub]
  have htop : fg (u + p) = fg0 (u + p) := hr.high _ (by omega)
  have hb0 := hfg (u + p) (by omega)
  have hle1 : |fg u + fg (u + p)| ≤ B := by
    have h1 := abs_add_le (fg u) (fg (u + p))
    have h2 := hr.le u (by omega)
    rw [htop] at *
    omega
  have hle2 : |fg (u + 1) + fg (u + p)| ≤ B := by
    have h1 := abs_add_le (fg (u + 1)) (fg (u + p))
    have h2 := hr.le (u + 1) (by omega)
    rw [htop] at *
    omega
  set fg1 := Function.update fg u (freeze (fg u + fg (u + p))) with hfg1
  have h1 : fg1 (u + 1) = fg (u + 1) := Function.update_of_ne (by omega) _ _
  have h2 : fg1 (u + p) = fg (u + p) := Function.update_of_ne (by omega) _ _
  rw [h1, h2]
  refine ⟨fun i hi => ?_, fun i hi => ?_, fun i hi => ?_⟩
  · rw [Function.update_of_ne (by omega), hfg1, Function.update_of_ne (by omega), hr.high i hi]
  · by_cases hi1 : i = u + 1
    · rw [hi1, Function.update_self]
      exact h.le _ hle2
    rw [Function.update_of_ne hi1]
    by_cases hi0 : i = u
    · rw [hi0, hfg1, Function.update_self]
      exact h.le _ hle1
    · rw [hfg1, Function.update_of_ne hi0]
      exact hr.le i hi
  · by_cases hi1 : i = u + 1
    · rw [hi1, Function.update_self, h.cast _ hle2, Int.cast_add, hr.cast (u + 1) (by omega), htop,
        if_neg (c := 2 * p - k ≤ u + 1 + p ∧ 0 < u + 1) (by omega),
        if_pos (c := 2 * p - (k + 1) ≤ u + 1 + p ∧ 0 < u + 1) (by omega), add_zero,
        show u + 1 + p - 1 = u + p by omega]
      by_cases hk0 : u + 1 + 1 < p
      · rw [if_pos (by omega), if_pos (by omega)]
      · rw [if_neg (by omega), if_neg (by omega)]
    rw [Function.update_of_ne hi1]
    by_cases hi0 : i = u
    · rw [hi0, hfg1, Function.update_self, h.cast _ hle1, Int.cast_add, hr.cast u (by omega), htop,
        if_neg (c := 2 * p - 1 - k ≤ u + p ∧ u + 1 < p) (by omega),
        if_pos (c := 2 * p - 1 - (k + 1) ≤ u + p ∧ u + 1 < p) (by omega),
        if_neg (c := 2 * p - k ≤ u + p ∧ 0 < u) (by omega),
        if_neg (c := 2 * p - (k + 1) ≤ u + p ∧ 0 < u) (by omega)]
      ring
    · rw [hfg1, Function.update_of_ne hi0, hr.cast i hi]
      have e1 : (2 * p - 1 - k ≤ i + p ∧ i + 1 < p) ↔ (2 * p - 1 - (k + 1) ≤ i + p ∧ i + 1 < p) := by omega
      have e2 : (2 * p - k ≤ i + p ∧ 0 < i) ↔ (2 * p - (k + 1) ≤ i + p ∧ 0 < i) := by omega
      simp only [e1, e2]

theorem Freezes.reduce (h : Freezes freeze N b B) (hB : b + b ≤ B) (hfg : ∀ i < 2 * p - 1, |fg i| ≤ b) :
    (∀ i < p, |reduce freeze fg i| ≤ b) ∧
      ∀ i < p, (reduce freeze fg i : ZMod N) = fold p (fun i => (fg i : ZMod N)) i := by
  have hrun : ∀ k ≤ p - 1,
      Reduced N b fg k ((List.range k).foldl (fun fg k => reduceStep freeze fg (p + p - 2 - k)) fg) := by
    intro k
    induction k with
    | zero => exact fun _ => Reduced.init hfg
    | succ k ih =>
      intro hk
      rw [List.range_succ, List.foldl_append]
      exact Reduced.step h hB hfg (by omega) (ih (by omega))
  have hend : Reduced N b fg (p - 1) (Sntrup.reduce freeze fg) := hrun (p - 1) le_rfl
  refine ⟨hend.le, fun i hi => ?_⟩
  have hp : 1 < p := by decide
  rw [fold, hend.cast i hi]
  have e1 : (2 * p - 1 - (p - 1) ≤ i + p ∧ i + 1 < p) ↔ i + 1 < p := by omega
  have e2 : (2 * p - (p - 1) ≤ i + p ∧ 0 < i) ↔ 0 < i := by omega
  rw [if_congr e1 rfl rfl, if_congr e2 rfl rfl]

theorem Freezes.mult (h : Freezes freeze N b B) (hb : 0 ≤ b) (hB : b + b ≤ B) (hf : ∀ i < p, |f i| ≤ b)
    (hg : ∀ i < p, |g i| ≤ 1) :
    (∀ i < p, |mult freeze f g i| ≤ b) ∧ ∀ i < p, (mult freeze f g i : ZMod N) =
      mulMod p (fun i => (f i : ZMod N)) (fun i => (g i : ZMod N)) i := by
  have hprod := fun i hi => h.product hb hB hf hg (i := i) hi
  obtain ⟨h1, h2⟩ := h.reduce hB fun i hi => (hprod i hi).1
  refine ⟨h1, fun i hi => ?_⟩
  rw [Sntrup.mult, h2 i hi, mulMod]
  exact fold_congr (fun i hi => (hprod i hi).2) hi

end

end TkTox.Sntrup
