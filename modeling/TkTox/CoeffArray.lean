import Mathlib.Algebra.Order.BigOperators.Group.Finset
import Mathlib.Algebra.Polynomial.FieldDivision
import Mathlib.Algebra.Polynomial.Reverse
import Mathlib.RingTheory.AdjoinRoot
import Mathlib.Tactic.ComputeDegree
import Mathlib.Tactic.LinearCombination
import TkTox.Divstep

/-!
Polynomials as arrays of coefficients, and the arrays that represent the classes modulo `X ^ n - X - 1`.
-/

open Polynomial Finset

namespace CoeffArray

variable {R : Type*} [CommRing R] {n m k : ℕ} {a b c : ℕ → R}

noncomputable def poly (n : ℕ) (a : ℕ → R) : R[X] := ∑ i ∈ range n, C (a i) * X ^ i

theorem coeff_poly (n : ℕ) (a : ℕ → R) (k : ℕ) : (poly n a).coeff k = if k < n then a k else 0 := by
  simp only [poly, finsetSum_coeff, coeff_C_mul_X_pow, sum_ite_eq, mem_range]

theorem poly_succ (n : ℕ) (a : ℕ → R) : poly (n + 1) a = poly n a + C (a n) * X ^ n := by
  rw [poly, sum_range_succ, poly]

theorem poly_congr (h : ∀ i < n, a i = b i) : poly n a = poly n b :=
  sum_congr rfl fun i hi => by rw [h i (mem_range.mp hi)]

theorem poly_inj (h : poly n a = poly n b) : ∀ i < n, a i = b i := by
  intro i hi
  have hc := congrArg (fun f => f.coeff i) h
  simpa only [coeff_poly, if_pos hi] using hc

theorem natDegree_poly_lt (hn : 0 < n) (a : ℕ → R) : (poly n a).natDegree < n := by
  rw [Nat.lt_iff_add_one_le, ← Nat.sub_add_cancel hn, Nat.add_le_add_iff_right, natDegree_le_iff_coeff_eq_zero]
  intro k hk
  rw [coeff_poly, if_neg (by omega)]

theorem degree_poly_lt (n : ℕ) (a : ℕ → R) : (poly n a).degree < n := by
  rw [degree_lt_iff_coeff_zero]
  intro k hk
  rw [coeff_poly, if_neg (by omega)]

theorem poly_sub (n : ℕ) (a b : ℕ → R) : poly n (fun i => a i - b i) = poly n a - poly n b := by
  ext k
  rw [coeff_sub, coeff_poly, coeff_poly, coeff_poly]
  split_ifs <;> simp

theorem poly_smul (n : ℕ) (x : R) (a : ℕ → R) : poly n (fun i => x * a i) = C x * poly n a := by
  ext k
  rw [coeff_C_mul, coeff_poly, coeff_poly]
  split_ifs <;> simp

theorem reflect_poly (n : ℕ) (a : ℕ → R) : reflect n (poly (n + 1) a) = poly (n + 1) fun i => a (n - i) := by
  ext k
  rw [coeff_reflect, coeff_poly, coeff_poly]
  by_cases hk : k ≤ n
  · rw [revAt_le hk, if_pos (by omega), if_pos (by omega)]
  · rw [revAt_eq_self_of_lt (by omega), if_neg (by omega), if_neg (by omega)]

def conv (n : ℕ) (a b : ℕ → R) (k : ℕ) : R :=
  ∑ j ∈ Ico (k + 1 - n) (min (k + 1) n), a j * b (k - j)

theorem poly_mul (a b : ℕ → R) : poly n a * poly n b = poly (2 * n - 1) (conv n a b) := by
  ext k
  rw [coeff_mul, Nat.sum_antidiagonal_eq_sum_range_succ_mk, coeff_poly]
  simp only [coeff_poly]
  have hterm : ∀ j ∈ range (k + 1), j ∉ Ico (k + 1 - n) (min (k + 1) n) →
      (if j < n then a j else 0) * (if k - j < n then b (k - j) else 0) = 0 := by
    intro j hj hno
    rw [mem_range] at hj
    rw [mem_Ico, not_and_or] at hno
    obtain hno | hno := hno
    · rw [if_neg (show ¬ k - j < n by omega), mul_zero]
    · rw [if_neg (show ¬ j < n by omega), zero_mul]
  have hsub : Ico (k + 1 - n) (min (k + 1) n) ⊆ range (k + 1) := by
    intro j hj
    rw [mem_Ico] at hj
    rw [mem_range]
    omega
  rw [← sum_subset hsub hterm]
  by_cases hk : k < 2 * n - 1
  · rw [if_pos hk, conv]
    apply sum_congr rfl
    intro j hj
    rw [mem_Ico] at hj
    rw [if_pos (by omega), if_pos (by omega)]
  · have hempty : Ico (k + 1 - n) (min (k + 1) n) = ∅ := by
      rw [Ico_eq_empty_iff]
      omega
    rw [if_neg hk, hempty, sum_empty]

noncomputable def modulus (R : Type*) [CommRing R] (n : ℕ) : R[X] := X ^ n - X - 1

theorem modulus_eq (R : Type*) [CommRing R] (n : ℕ) : (X : R[X]) ^ n = modulus R n + (X + 1) := by
  rw [modulus]
  ring

theorem modulus_monic (hn : 2 ≤ n) : (modulus R n).Monic := by
  rw [modulus, sub_sub]
  apply monic_X_pow_sub
  apply (degree_add_le _ _).trans_lt
  apply max_lt
  · exact degree_X_le.trans_lt (by exact_mod_cast hn)
  · exact degree_one_le.trans_lt (by exact_mod_cast (by omega : 0 < n))

theorem modulus_natDegree [Nontrivial R] (hn : 2 ≤ n) : (modulus R n).natDegree = n := by
  rw [modulus, sub_sub]
  have hlt : ((X : R[X]) + 1).natDegree < (X ^ n : R[X]).natDegree := by
    rw [natDegree_X_pow]
    have : ((X : R[X]) + 1).natDegree ≤ 1 := by compute_degree
    omega
  rw [natDegree_sub_eq_left_of_natDegree_lt hlt, natDegree_X_pow]

theorem modulus_isRoot {x : R} : (modulus R n).IsRoot x ↔ x ^ n = x + 1 := by
  rw [modulus, IsRoot, eval_sub, eval_sub, eval_pow, eval_X, eval_one, sub_sub, sub_eq_zero]

theorem reflect_modulus (hn : 2 ≤ n) : reflect n (modulus R n) =
    poly (n + 1) fun i => if i = 0 then 1 else if i = n - 1 ∨ i = n then -1 else 0 := by
  ext k
  rw [coeff_reflect, coeff_poly, modulus, coeff_sub, coeff_sub, coeff_X_pow, coeff_X, coeff_one]
  by_cases hk : k ≤ n
  · rw [revAt_le hk, if_pos (Nat.lt_succ_of_le hk)]
    by_cases h0 : k = 0
    · rw [if_pos (show n - k = n by omega), if_neg (by omega), if_neg (by omega), if_pos h0, sub_zero, sub_zero]
    rw [if_neg (show ¬ n - k = n by omega), if_neg h0]
    by_cases h1 : k = n - 1
    · rw [if_pos (show 1 = n - k by omega), if_neg (by omega), if_pos (.inl h1), sub_zero, zero_sub]
    rw [if_neg (show ¬ 1 = n - k by omega)]
    by_cases h2 : k = n
    · rw [if_pos (by omega), if_pos (.inr h2), sub_zero, zero_sub]
    · rw [if_neg (by omega), if_neg (by tauto), sub_zero, sub_zero]
  · rw [revAt_eq_self_of_lt (by omega), if_neg (by omega), if_neg (by omega), if_neg (by omega), if_neg (by omega),
      sub_zero, sub_zero]

theorem poly_extend (n : ℕ) (a : ℕ → R) : poly (n + 1) (fun i => if i < n then a i else 0) = poly n a := by
  rw [poly_succ, if_neg (lt_irrefl n), C_0, zero_mul, add_zero]
  exact poly_congr fun i hi => if_pos hi

theorem eq_poly {f : R[X]} (hn : 0 < n) (hf : f.natDegree ≤ n - 1) (h : ∀ i < n, f.coeff i = a i) : f = poly n a := by
  ext k
  rw [coeff_poly]
  by_cases hk : k < n
  · rw [if_pos hk, h k hk]
  · rw [if_neg hk]
    exact coeff_eq_zero_of_natDegree_lt (by omega)

theorem modulus_coeff_zero (hn : 2 ≤ n) : (modulus R n).coeff 0 = -1 := by
  simp [modulus, coeff_X_pow, show 0 ≠ n by omega]

theorem eq_of_modulus_dvd (hn : 2 ≤ n) (h : modulus R n ∣ poly n a - poly n b) : ∀ i < n, a i = b i := by
  apply poly_inj
  nontriviality R
  by_contra hne
  have hdeg : (poly n a - poly n b).degree < (modulus R n).degree := by
    rw [degree_eq_natDegree (modulus_monic hn).ne_zero, modulus_natDegree hn]
    apply (degree_sub_le _ _).trans_lt
    exact max_lt (degree_poly_lt n a) (degree_poly_lt n b)
  exact (modulus_monic hn).not_dvd_of_degree_lt (sub_ne_zero.mpr hne) hdeg h

def fold (n : ℕ) (c : ℕ → R) (i : ℕ) : R :=
  c i + (if i + 1 < n then c (i + n) else 0) + if 0 < i then c (i + n - 1) else 0

theorem fold_congr (h : ∀ i < 2 * n - 1, b i = c i) {i : ℕ} (hi : i < n) : fold n b i = fold n c i := by
  rw [fold, fold, h i (by omega)]
  congr 1
  · by_cases h1 : i + 1 < n
    · rw [if_pos h1, if_pos h1, h (i + n) (by omega)]
    · rw [if_neg h1, if_neg h1]
  · by_cases h1 : 0 < i
    · rw [if_pos h1, if_pos h1, h (i + n - 1) (by omega)]
    · rw [if_neg h1, if_neg h1]

theorem modulus_dvd_shift (n i : ℕ) (x : R) : modulus R n ∣ C x * X ^ (n + i) - (C x * X ^ i + C x * X ^ (i + 1)) :=
  ⟨C x * X ^ i, by rw [modulus]; ring⟩

theorem modulus_dvd_fold (n : ℕ) (c : ℕ → R) : modulus R (n + 1) ∣ poly (2 * n + 1) c - poly (n + 1) (fold (n + 1) c) := by
  have hhigh : poly (2 * n + 1) c = poly (n + 1) c + ∑ i ∈ range n, C (c (n + 1 + i)) * X ^ (n + 1 + i) := by
    rw [poly, poly, show 2 * n + 1 = (n + 1) + n by omega, sum_range_add]
  have hlow : poly (n + 1) (fold (n + 1) c) = poly (n + 1) c +
      ∑ i ∈ range n, (C (c (n + 1 + i)) * X ^ i + C (c (n + 1 + i)) * X ^ (i + 1)) := by
    have h1 : poly (n + 1) (fun i => if i + 1 < n + 1 then c (i + (n + 1)) else 0) =
        ∑ i ∈ range n, C (c (n + 1 + i)) * X ^ i := by
      rw [poly_succ, if_neg (by omega), C_0, zero_mul, add_zero, poly]
      apply sum_congr rfl
      intro i hi
      rw [mem_range] at hi
      rw [if_pos (by omega), add_comm i]
    have h2 : poly (n + 1) (fun i => if 0 < i then c (i + (n + 1) - 1) else 0) =
        ∑ i ∈ range n, C (c (n + 1 + i)) * X ^ (i + 1) := by
      rw [poly, sum_range_succ']
      simp only [lt_irrefl, if_false, C_0, zero_mul, add_zero]
      apply sum_congr rfl
      intro i hi
      rw [if_pos (by omega), show i + 1 + (n + 1) - 1 = n + 1 + i by omega]
    rw [sum_add_distrib, ← h1, ← h2]
    ext k
    simp only [coeff_add, coeff_poly, fold]
    split_ifs <;> ring
  rw [hhigh, hlow, add_sub_add_left_eq_sub, ← sum_sub_distrib]
  apply dvd_sum
  intro i _
  exact modulus_dvd_shift (n + 1) i _

def mulMod (n : ℕ) (a b : ℕ → R) : ℕ → R := fold n (conv n a b)

theorem modulus_dvd_mulMod (hn : 0 < n) (a b : ℕ → R) :
    modulus R n ∣ poly n a * poly n b - poly n (mulMod n a b) := by
  obtain ⟨m, rfl⟩ := Nat.exists_eq_add_one.mpr hn
  rw [poly_mul, show 2 * (m + 1) - 1 = 2 * m + 1 by omega]
  exact modulus_dvd_fold m _

theorem mulMod_map {S : Type*} [CommRing S] (φ : R →+* S) (a b : ℕ → R) (i : ℕ) :
    φ (mulMod n a b i) = mulMod n (fun i => φ (a i)) (fun i => φ (b i)) i := by
  have hconv : ∀ k, φ (conv n a b k) = conv n (fun i => φ (a i)) (fun i => φ (b i)) k := by
    intro k
    simp only [conv, map_sum, map_mul]
  simp only [mulMod, fold, map_add, apply_ite φ, map_zero, hconv]

noncomputable def cls (n : ℕ) (a : ℕ → R) : AdjoinRoot (modulus R n) := AdjoinRoot.mk _ (poly n a)

theorem cls_congr (h : ∀ i < n, a i = b i) : cls n a = cls n b := by
  rw [cls, poly_congr h, cls]

theorem cls_X (hn : 1 < n) : cls n (fun i => if i = 1 then (1 : R) else 0) = AdjoinRoot.root (modulus R n) := by
  have hpoly : poly n (fun i => if i = 1 then (1 : R) else 0) = X := by
    ext k
    rw [coeff_poly, coeff_X]
    split_ifs <;> first | rfl | omega
  rw [cls, hpoly, AdjoinRoot.mk_X]

theorem isUnit_cls_X (hn : 1 < n) : IsUnit (cls n fun i => if i = 1 then (1 : R) else 0) := by
  have hroot : AdjoinRoot.root (modulus R n) ^ n = AdjoinRoot.root (modulus R n) + 1 := by
    have h : AdjoinRoot.mk (modulus R n) (X ^ n - X - 1) = 0 := AdjoinRoot.mk_self
    rw [map_sub, map_sub, map_pow, AdjoinRoot.mk_X, map_one] at h
    linear_combination h
  rw [cls_X hn]
  apply IsUnit.of_mul_eq_one (AdjoinRoot.root (modulus R n) ^ (n - 1) - 1)
  have hpow : AdjoinRoot.root (modulus R n) * AdjoinRoot.root (modulus R n) ^ (n - 1) =
      AdjoinRoot.root (modulus R n) ^ n := by
    rw [← pow_succ', Nat.sub_add_cancel (by omega)]
  linear_combination hpow + hroot

theorem cls_inj (hn : 2 ≤ n) (h : cls n a = cls n b) : ∀ i < n, a i = b i :=
  eq_of_modulus_dvd hn (AdjoinRoot.mk_eq_mk.mp h)

theorem isUnit_cls_iff {K : Type*} [Field K] {a : ℕ → K} :
    IsUnit (cls n a) ↔ IsCoprime (modulus K n) (poly n a) := by
  constructor
  · intro h
    obtain ⟨y, hy⟩ := h.exists_right_inv
    obtain ⟨f, rfl⟩ := AdjoinRoot.mk_surjective y
    rw [cls, ← map_mul, ← map_one (AdjoinRoot.mk (modulus K n)), AdjoinRoot.mk_eq_mk] at hy
    obtain ⟨c, hc⟩ := hy
    exact ⟨-c, f, by linear_combination hc⟩
  · rintro ⟨c, f, hc⟩
    apply IsUnit.of_mul_eq_one (AdjoinRoot.mk _ f)
    rw [cls, ← map_mul, ← map_one (AdjoinRoot.mk (modulus K n)), AdjoinRoot.mk_eq_mk]
    exact ⟨-c, by linear_combination hc⟩

theorem cls_mul_of_dvd {x : R} (h : modulus R n ∣ C x - poly n a * poly n b) :
    cls n a * cls n b = AdjoinRoot.of _ x := by
  have hmk := AdjoinRoot.mk_eq_mk.mpr h
  rw [map_mul, AdjoinRoot.mk_C] at hmk
  exact hmk.symm

theorem cls_sub (a b : ℕ → R) : cls n (fun i => a i - b i) = cls n a - cls n b := by
  rw [cls, poly_sub, map_sub, cls, cls]

theorem cls_smul (x : R) (a : ℕ → R) : cls n (fun i => x * a i) = AdjoinRoot.of _ x * cls n a := by
  rw [cls, poly_smul, map_mul, AdjoinRoot.mk_C, cls]

theorem cls_mulMod (hn : 0 < n) (a b : ℕ → R) : cls n (mulMod n a b) = cls n a * cls n b := by
  rw [cls, cls, cls, ← map_mul]
  exact (AdjoinRoot.mk_eq_mk.mpr (modulus_dvd_mulMod hn a b)).symm

theorem steps_cls {K : Type*} [Field K] {a f v : ℕ → K} {u : K} {t : Divstep.State K} (hn : 2 ≤ n) (hu : u ≠ 0)
    (h : Divstep.Steps (2 * n - 1) ⟨1, reflect n (modulus K n), reflect (n - 1) (poly n a), 0, C u⟩ t)
    (hf : t.f = poly (n + 1) f) (hv : ∀ i < n, t.v.coeff i = v i) :
    (t.δ = 0 ↔ IsUnit (cls n a)) ∧
      (t.δ = 0 → cls n (fun i => v (n - 1 - i)) * cls n a = AdjoinRoot.of _ (u * f 0)) := by
  obtain ⟨d, rfl⟩ : ∃ d, n = d + 1 := ⟨n - 1, by omega⟩
  have hconst : (modulus K (d + 1)).coeff 0 ≠ 0 := by
    rw [modulus_coeff_zero hn]
    exact neg_ne_zero.mpr one_ne_zero
  have ha : (poly (d + 1) a).natDegree ≤ d := Nat.le_of_lt_succ (natDegree_poly_lt (by omega) a)
  rw [show 2 * (d + 1) - 1 = 2 * d + 1 by omega, Nat.add_sub_cancel] at h
  obtain ⟨hiff, hinv⟩ := Divstep.steps_inverse (by omega) hu (modulus_natDegree hn) hconst ha h
  refine ⟨hiff.trans isUnit_cls_iff.symm, fun hδ => ?_⟩
  obtain ⟨c, -, hc, hdeg, hdvd⟩ := hinv hδ
  have hcf : c = f 0 := by
    have h0 := congrArg (fun P => P.coeff 0) (hf.symm.trans hc)
    simpa only [coeff_poly, coeff_C_zero, if_pos (Nat.succ_pos (d + 1))] using h0.symm
  rw [eq_poly (by omega) hdeg hv, reflect_poly, hcf] at hdvd
  exact cls_mul_of_dvd hdvd

section

variable {a b : ℕ → ℤ}

theorem abs_conv_le (hb : ∀ j < n, |b j| ≤ 1) (a : ℕ → ℤ) (k : ℕ) :
    |conv n a b k| ≤ ∑ j ∈ Ico (k + 1 - n) (min (k + 1) n), |a j| := by
  apply (abs_sum_le_sum_abs _ _).trans
  apply sum_le_sum
  intro j hj
  rw [mem_Ico] at hj
  rw [abs_mul]
  exact mul_le_of_le_one_right (abs_nonneg _) (hb _ (by omega))

theorem abs_mulMod_le (hb : ∀ j < n, |b j| ≤ 1) {i : ℕ} (hi : i < n) :
    |mulMod n a b i| ≤ 2 * ∑ j ∈ range n, |a j| := by
  have hfirst : |conv n a b i| ≤ ∑ j ∈ Ico 0 (i + 1), |a j| := by
    have h := abs_conv_le hb a i
    rwa [show i + 1 - n = 0 by omega, Nat.min_eq_left (by omega)] at h
  have hsecond : |if i + 1 < n then conv n a b (i + n) else 0| ≤ ∑ j ∈ Ico (i + 1) n, |a j| := by
    split_ifs
    · have h := abs_conv_le hb a (i + n)
      rwa [show i + n + 1 - n = i + 1 by omega, Nat.min_eq_right (by omega)] at h
    · rw [abs_zero]
      exact sum_nonneg fun _ _ => abs_nonneg _
  have hthird : |if 0 < i then conv n a b (i + n - 1) else 0| ≤ ∑ j ∈ range n, |a j| := by
    split_ifs
    · apply (abs_conv_le hb a (i + n - 1)).trans
      apply sum_le_sum_of_subset_of_nonneg
      · intro j hj
        rw [mem_Ico] at hj
        rw [mem_range]
        omega
      · exact fun _ _ _ => abs_nonneg _
    · rw [abs_zero]
      exact sum_nonneg fun _ _ => abs_nonneg _
  have hsplit := sum_Ico_consecutive (fun j => |a j|) (Nat.zero_le (i + 1)) (show i + 1 ≤ n by omega)
  rw [Nat.Ico_zero_eq_range n] at hsplit
  rw [mulMod, fold]
  have h1 := abs_add_le (conv n a b i + if i + 1 < n then conv n a b (i + n) else 0)
    (if 0 < i then conv n a b (i + n - 1) else 0)
  have h2 := abs_add_le (conv n a b i) (if i + 1 < n then conv n a b (i + n) else 0)
  linarith

end

end CoeffArray
