import Mathlib.Algebra.Polynomial.FieldDivision
import Mathlib.Algebra.Polynomial.Reverse
import Mathlib.Tactic.LinearCombination

/-!
Division steps on polynomials over a field. A step takes the constant term off one of two polynomials
with the help of the other and divides by `X`; after `2 * d - 1` steps on polynomials of degree at most
`d` and below `d` the count `δ` is 0 exactly if the two are coprime, and then `v` has their Bezout
coefficient.
-/

open Polynomial

namespace Divstep

variable {K : Type*} [Field K]

structure State (K : Type*) [Field K] where
  δ : ℤ
  f : K[X]
  g : K[X]
  v : K[X]
  r : K[X]

inductive Step : State K → State K → Prop
  | keep {s : State K} {α β : K} {g' : K[X]} (hα : α ≠ 0) (hδ : s.δ ≤ 0 ∨ β = 0)
      (hg : X * g' = C α * s.g - C β * s.f) :
      Step s ⟨s.δ + 1, s.f, g', X * s.v, C α * s.r - C β * (X * s.v)⟩
  | swap {s : State K} {α β : K} {g' : K[X]} (hα : α ≠ 0) (hδ : 0 < s.δ) (h0 : s.g.coeff 0 ≠ 0)
      (hg : X * g' = C α * s.f - C β * s.g) :
      Step s ⟨1 - s.δ, s.g, g', s.r, C α * (X * s.v) - C β * s.r⟩

inductive Steps : ℕ → State K → State K → Prop
  | refl (s : State K) : Steps 0 s s
  | step {n : ℕ} {s t u : State K} (h : Steps n s t) (h' : Step t u) : Steps (n + 1) s u

def Below (b : ℤ) (f : K[X]) : Prop := ∀ k : ℕ, b < 2 * k → f.coeff k = 0

section

variable {a b : ℤ} {f g : K[X]}

theorem Below.mono (h : Below a f) (hab : a ≤ b) : Below b f := fun k hk => h k (hab.trans_lt hk)

theorem Below.zero (b : ℤ) : Below b (0 : K[X]) := fun _ _ => coeff_zero _

theorem Below.comb (hf : Below b f) (hg : Below b g) (α β : K) : Below b (C α * f - C β * g) := by
  intro k hk
  rw [coeff_sub, coeff_C_mul, coeff_C_mul, hf k hk, hg k hk, mul_zero, mul_zero, sub_zero]

theorem Below.X_mul (h : Below b f) (hb : -2 ≤ b) : Below (b + 2) (X * f) := by
  intro k hk
  cases k with
  | zero =>
    push_cast at hk
    omega
  | succ k =>
    rw [coeff_X_mul]
    apply h
    push_cast at hk
    omega

theorem Below.of_X_mul (h : Below b (X * f)) : Below (b - 2) f := by
  intro k hk
  rw [← coeff_X_mul f k]
  apply h
  push_cast
  omega

theorem Below.natDegree_le {n : ℕ} (h : Below (2 * n) f) : f.natDegree ≤ n := by
  rw [natDegree_le_iff_coeff_eq_zero]
  intro k hk
  apply h
  omega

theorem Below.of_natDegree_le {n : ℕ} (h : f.natDegree ≤ n) : Below (2 * n) f := by
  intro k hk
  apply coeff_eq_zero_of_natDegree_lt
  omega

end

structure Inv (d : ℕ) (F G : K[X]) (u : K) (n : ℕ) (s : State K) : Prop where
  const : s.f.coeff 0 ≠ 0
  parity : (n + s.δ) % 2 = 1
  left : F ∣ C u * X ^ n * s.f - X * s.v * G
  right : F ∣ C u * X ^ n * s.g - s.r * G
  det : ∃ κ ≠ 0, s.f * s.r - X * s.g * s.v = C κ * F
  degF : Below (2 * d - 1 - n + s.δ) s.f
  degG : Below (2 * d - 1 - n - s.δ) s.g
  degV : Below (n - 1 + s.δ) s.v
  degR : Below (n + 1 - s.δ) s.r
  range : -n ≤ s.δ ∧ s.δ ≤ n + 1

theorem Inv.init {d : ℕ} {F G : K[X]} {u : K} (hu : u ≠ 0) (h0 : F.coeff 0 ≠ 0) (hF : F.natDegree ≤ d)
    (hG : G.natDegree + 1 ≤ d) : Inv d F G u 0 ⟨1, F, G, 0, C u⟩ where
  const := h0
  parity := rfl
  left := by simp
  right := by simp
  det := ⟨u, hu, by simp [mul_comm]⟩
  degF := by
    apply (Below.of_natDegree_le hF).mono
    push_cast
    omega
  degG := by
    apply (Below.of_natDegree_le (le_refl G.natDegree)).mono
    push_cast
    omega
  degV := .zero _
  degR := by
    have hC : (C u).natDegree ≤ 0 := natDegree_C u |>.le
    apply (Below.of_natDegree_le hC).mono
    simp
  range := by simp

theorem Step.inv {d : ℕ} {F G : K[X]} {u : K} {n : ℕ} {s t : State K} (h : Step s t)
    (hi : Inv d F G u n s) : Inv d F G u (n + 1) t := by
  obtain ⟨a, ha⟩ := hi.left
  obtain ⟨b, hb⟩ := hi.right
  obtain ⟨κ, hκ, hdet⟩ := hi.det
  obtain ⟨hlo, hhi⟩ := hi.range
  have hpar := hi.parity
  cases h with
  | @keep α β g' hα hδ hg =>
    constructor
    case const => exact hi.const
    case parity =>
      push_cast
      omega
    case left => exact ⟨X * a, by linear_combination X * ha⟩
    case right => exact ⟨C α * b - C β * a, by linear_combination (C u * X ^ n) * hg + C α * hb - C β * ha⟩
    case det =>
      refine ⟨α * κ, mul_ne_zero hα hκ, ?_⟩
      rw [C_mul]
      linear_combination (-X * s.v) * hg + C α * hdet
    case degF =>
      apply hi.degF.mono
      push_cast
      omega
    case degG =>
      have hcomb : Below (2 * d - 1 - n - s.δ) (C α * s.g - C β * s.f) := by
        obtain hδ | rfl := hδ
        · exact hi.degG.comb (hi.degF.mono (by omega)) α β
        · have := hi.degG.comb (.zero _) α (0 : K)
          simpa using this
      rw [← hg] at hcomb
      apply hcomb.of_X_mul.mono
      push_cast
      omega
    case degV =>
      apply (hi.degV.X_mul (by omega)).mono
      push_cast
      omega
    case degR =>
      obtain hδ | rfl := hδ
      · apply ((hi.degR.mono ?_).comb ((hi.degV.X_mul (by omega)).mono ?_) α β) <;> push_cast <;> omega
      · have := hi.degR.comb (.zero _) α (0 : K)
        simp only [map_zero, zero_mul, sub_zero] at this ⊢
        apply this.mono
        push_cast
        omega
    case range => push_cast; omega
  | @swap α β g' hα hδ h0 hg =>
    constructor
    case const => exact h0
    case parity =>
      push_cast
      omega
    case left => exact ⟨X * b, by linear_combination X * hb⟩
    case right => exact ⟨C α * a - C β * b, by linear_combination (C u * X ^ n) * hg + C α * ha - C β * hb⟩
    case det =>
      refine ⟨-(α * κ), neg_ne_zero.mpr (mul_ne_zero hα hκ), ?_⟩
      rw [C_neg, C_mul]
      linear_combination (-s.r) * hg - C α * hdet
    case degF =>
      apply hi.degG.mono
      push_cast
      omega
    case degG =>
      have hcomb : Below (2 * d - 1 - n + s.δ) (C α * s.f - C β * s.g) :=
        hi.degF.comb (hi.degG.mono (by omega)) α β
      rw [← hg] at hcomb
      apply hcomb.of_X_mul.mono
      push_cast
      omega
    case degV =>
      apply hi.degR.mono
      push_cast
      omega
    case degR =>
      apply (((hi.degV.X_mul (by omega)).mono ?_).comb (hi.degR.mono ?_) α β) <;> push_cast <;> omega
    case range => push_cast; omega

theorem Steps.inv {d : ℕ} {F G : K[X]} {u : K} {n : ℕ} {s t : State K} (h : Steps n s t)
    (hi : Inv d F G u 0 s) : Inv d F G u n t := by
  induction h with
  | refl s => exact hi
  | step _ h' ih => exact h'.inv (ih hi)

section

variable {d n : ℕ} {F G : K[X]} {u : K} {s : State K}

theorem isCoprime_X_pow (h0 : F.coeff 0 ≠ 0) (k : ℕ) : IsCoprime F (X ^ k) := by
  apply IsCoprime.pow_right
  rw [isCoprime_comm, (prime_X (R := K)).irreducible.coprime_iff_not_dvd, X_dvd_iff]
  exact h0

theorem Inv.at_zero (hi : Inv (d + 1) F G u (2 * d + 1) s) (h0 : F.coeff 0 ≠ 0) (hδ : s.δ = 0) :
    ∃ c ≠ 0, s.f = C c ∧ s.v.natDegree ≤ d ∧ F ∣ C (u * c) * X ^ (2 * d) - s.v * G := by
  have hf : s.f = C (s.f.coeff 0) := by
    apply eq_C_of_natDegree_le_zero
    apply Below.natDegree_le
    apply hi.degF.mono
    push_cast
    omega
  refine ⟨s.f.coeff 0, hi.const, hf, ?_, ?_⟩
  · apply Below.natDegree_le
    apply hi.degV.mono
    push_cast
    omega
  · have hleft := hi.left
    rw [hf] at hleft
    have hX : F ∣ X * (C (u * s.f.coeff 0) * X ^ (2 * d) - s.v * G) := by
      convert hleft using 1
      rw [C_mul]
      ring
    have hco := isCoprime_X_pow h0 1
    rw [pow_one] at hco
    exact hco.dvd_of_dvd_mul_left hX

theorem Inv.at_coprime (hi : Inv (d + 1) F G u (2 * d + 1) s) (hF : F.natDegree = d + 1)
    (hco : IsCoprime F G) : s.δ = 0 := by
  have hpar := hi.parity
  push_cast at hpar
  obtain ⟨κ, hκ, hdet⟩ := hi.det
  have hne : F ≠ 0 := by
    rintro rfl
    simp at hF
  by_contra hδ
  obtain hneg | hpos := lt_or_gt_of_ne hδ
  · -- `f` vanishes, although its constant term does not
    apply hi.const
    apply hi.degF
    push_cast
    omega
  · have hg : s.g = 0 := by
      ext k
      rw [coeff_zero]
      apply hi.degG
      push_cast
      omega
    have hr : s.r ≠ 0 := by
      intro hr
      rw [hg, hr, mul_zero, mul_zero, zero_mul, sub_zero] at hdet
      exact mul_ne_zero (C_ne_zero.mpr hκ) hne hdet.symm
    -- the coefficient of `g` is a multiple of `F` and of too small a degree
    have hdvd : F ∣ s.r := by
      have hright := hi.right
      rw [hg, mul_zero, zero_sub, dvd_neg] at hright
      exact hco.dvd_of_dvd_mul_right hright
    have hdeg := natDegree_le_of_dvd hdvd hr
    have hlow : s.r.natDegree ≤ d := by
      apply Below.natDegree_le
      apply hi.degR.mono
      push_cast
      omega
    omega

end

section

variable {d : ℕ} {P a : K[X]} {u : K} {t : State K}

theorem natDegree_reflect_eq (hP : P.natDegree = d) (h0 : P.coeff 0 ≠ 0) : (reflect d P).natDegree = d := by
  apply le_antisymm
  · have := natDegree_reflect_le (N := d) (p := P)
    omega
  · apply le_natDegree_of_ne_zero
    rw [coeff_reflect, revAt_le le_rfl, Nat.sub_self]
    exact h0

theorem reflect_dvd {b : K[X]} (hP : P.natDegree = d + 1) (h0 : P.coeff 0 ≠ 0)
    (hb : b.natDegree ≤ 2 * d) (h : reflect (d + 1) P ∣ b) (hd : 0 < d) : P ∣ reflect (2 * d) b := by
  obtain ⟨q, rfl⟩ := h
  by_cases hq : q = 0
  · rw [hq, mul_zero, reflect_zero]
    exact dvd_zero P
  have hF := natDegree_reflect_eq hP h0
  have hne : reflect (d + 1) P ≠ 0 := by
    intro hz
    rw [hz] at hF
    simp at hF
  rw [natDegree_mul hne hq, hF] at hb
  have hsum : 2 * d = (d + 1) + (d - 1) := by omega
  rw [hsum, reflect_mul _ _ hF.le (by omega), reflect_reflect]
  exact dvd_mul_right P _

theorem isCoprime_reflect (hP : P.natDegree = d + 1) (ha : a.natDegree ≤ d) (hd : 0 < d)
    (hco : IsCoprime P a) : IsCoprime (reflect (d + 1) P) (reflect d a) := by
  obtain ⟨x, y, hxy⟩ := hco
  have hne : P ≠ 0 := by
    rintro rfl
    simp at hP
  -- the Bezout coefficients of low degree
  set t := y % P with ht
  have htd : t.natDegree ≤ d := by
    have hlt := natDegree_mod_lt y (q := P) (by omega)
    rw [← ht] at hlt
    omega
  have hs : P * (x + y / P * a) = 1 - t * a := by
    have hmod := EuclideanDomain.div_add_mod y P
    rw [← ht] at hmod
    linear_combination hxy + a * hmod
  set s := x + y / P * a
  have hone : (1 - t * a).natDegree ≤ 2 * d := by
    apply (natDegree_sub_le _ _).trans
    rw [natDegree_one, Nat.zero_max]
    apply natDegree_mul_le.trans
    omega
  have hsd : s.natDegree ≤ d - 1 := by
    by_cases hz : s = 0
    · rw [hz, natDegree_zero]
      exact Nat.zero_le _
    · rw [← hs, natDegree_mul hne hz, hP] at hone
      omega
  have hrev := congrArg (reflect (2 * d)) (eq_sub_iff_add_eq.mp hs)
  have h1 : 2 * d = (d + 1) + (d - 1) := by omega
  have h2 : 2 * d = d + d := by omega
  have hmulP : reflect (2 * d) (P * s) = reflect (d + 1) P * reflect (d - 1) s := by
    rw [h1, reflect_mul _ _ hP.le hsd]
  have hmulA : reflect (2 * d) (t * a) = reflect d t * reflect d a := by
    rw [h2, reflect_mul _ _ htd ha]
  rw [reflect_add, hmulP, hmulA, reflect_one] at hrev
  have hF0 : (reflect (d + 1) P).coeff 0 ≠ 0 := by
    rw [coeff_reflect, revAt_zero, ← hP]
    exact leadingCoeff_ne_zero.mpr hne
  obtain ⟨A, B, hAB⟩ := isCoprime_X_pow hF0 (2 * d)
  exact ⟨A + B * reflect (d - 1) s, B * reflect d t, by linear_combination hAB + B * hrev⟩

theorem steps_inverse (hd : 0 < d) (hu : u ≠ 0) (hP : P.natDegree = d + 1) (h0 : P.coeff 0 ≠ 0)
    (ha : a.natDegree ≤ d)
    (h : Steps (2 * d + 1) ⟨1, reflect (d + 1) P, reflect d a, 0, C u⟩ t) :
    (t.δ = 0 ↔ IsCoprime P a) ∧
      (t.δ = 0 → ∃ c ≠ 0, t.f = C c ∧ t.v.natDegree ≤ d ∧ P ∣ C (u * c) - reflect d t.v * a) := by
  have hne : P ≠ 0 := by
    rintro rfl
    simp at hP
  have hF := natDegree_reflect_eq hP h0
  have hF0 : (reflect (d + 1) P).coeff 0 ≠ 0 := by
    rw [coeff_reflect, revAt_zero, ← hP]
    exact leadingCoeff_ne_zero.mpr hne
  have hG : (reflect d a).natDegree ≤ d := by
    have := natDegree_reflect_le (N := d) (p := a)
    omega
  have hi := h.inv (Inv.init hu hF0 hF.le (by omega))
  have hzero : t.δ = 0 → ∃ c ≠ 0, t.f = C c ∧ t.v.natDegree ≤ d ∧ P ∣ C (u * c) - reflect d t.v * a := by
    intro hδ
    obtain ⟨c, hc, hf, hv, hdvd⟩ := hi.at_zero hF0 hδ
    refine ⟨c, hc, hf, hv, ?_⟩
    have hdeg : (C (u * c) * X ^ (2 * d) - t.v * reflect d a).natDegree ≤ 2 * d := by
      apply (natDegree_sub_le _ _).trans
      apply max_le
      · exact natDegree_C_mul_X_pow_le _ _
      · apply natDegree_mul_le.trans
        omega
    have hrev := reflect_dvd hP h0 hdeg hdvd hd
    have h2 : 2 * d = d + d := by omega
    have hmul : reflect (2 * d) (t.v * reflect d a) = reflect d t.v * a := by
      rw [h2, reflect_mul _ _ hv hG, reflect_reflect]
    rwa [reflect_sub, hmul, reflect_C_mul_X_pow, revAt_le le_rfl, Nat.sub_self, pow_zero, mul_one] at hrev
  refine ⟨⟨?_, ?_⟩, hzero⟩
  · intro hδ
    obtain ⟨c, hc, -, -, q, hq⟩ := hzero hδ
    have hinv : C (u * c)⁻¹ * C (u * c) = 1 := by
      rw [← C_mul, inv_mul_cancel₀ (mul_ne_zero hu hc), C_1]
    exact ⟨C (u * c)⁻¹ * q, C (u * c)⁻¹ * reflect d t.v, by linear_combination hinv - C (u * c)⁻¹ * hq⟩
  · intro hco
    exact hi.at_coprime hF (isCoprime_reflect hP ha hd hco)

end

end Divstep
