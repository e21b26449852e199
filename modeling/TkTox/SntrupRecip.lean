import TkTox.SntrupCore

/-!
`R3_recip` and `Rq_recip3` of `sntrup761.c`: their loops are division steps on the reversed polynomials,
kept to the arrays' first `p + 1` coefficients.
-/

open CoeffArray Polynomial

namespace TkTox.Sntrup

structure RecipState where
  f : ℕ → ℤ
  g : ℕ → ℤ
  v : ℕ → ℤ
  r : ℕ → ℤ
  delta : ℤ

def shiftUp (v : ℕ → ℤ) (i : ℕ) : ℤ := if i = 0 then 0 else v (i - 1)

def shiftDown (g : ℕ → ℤ) (i : ℕ) : ℤ := if i < p then g (i + 1) else 0

def swapMask (delta g0 : ℤ) : ℤ := and32 (int16NegativeMask (-delta)) (int16NonzeroMask g0)

def nextDelta (swap delta : ℤ) : ℤ := xor32 delta (and32 swap (xor32 delta (-delta))) + 1

def recipInit (r0 : ℤ) (input : ℕ → ℤ) : RecipState where
  f i := if i = 0 then 1 else if i = p - 1 ∨ i = p then -1 else 0
  g i := if i < p then input (p - 1 - i) else 0
  v _ := 0
  r i := if i = 0 then r0 else 0
  delta := 1

def r3Step (s : RecipState) : RecipState :=
  let v := shiftUp s.v
  let sign := -s.g 0 * s.f 0
  let swap := swapMask s.delta (s.g 0)
  let fg := fun i => condSwap swap (s.f i) (s.g i)
  let vr := fun i => condSwap swap (v i) (s.r i)
  { f := fun i => (fg i).1
    g := shiftDown fun i => f3Freeze ((fg i).2 + sign * (fg i).1)
    v := fun i => (vr i).1
    r := fun i => f3Freeze ((vr i).2 + sign * (vr i).1)
    delta := nextDelta swap s.delta }

/-- Returns 0 if the inverse exists, else -1. -/
def r3Recip (input : ℕ → ℤ) : ℤ × (ℕ → ℤ) :=
  let s := r3Step^[2 * p - 1] (recipInit 1 input)
  let sign := s.f 0
  (int16NonzeroMask s.delta, fun i => sign * s.v (p - 1 - i))

def rqStep (s : RecipState) : RecipState :=
  let v := shiftUp s.v
  let swap := swapMask s.delta (s.g 0)
  let fg := fun i => condSwap swap (s.f i) (s.g i)
  let vr := fun i => condSwap swap (v i) (s.r i)
  let f0 := (fg 0).1
  let g0 := (fg 0).2
  { f := fun i => (fg i).1
    g := shiftDown fun i => fqFreeze (f0 * (fg i).2 - g0 * (fg i).1)
    v := fun i => (vr i).1
    r := fun i => fqFreeze (f0 * (vr i).2 - g0 * (vr i).1)
    delta := nextDelta swap s.delta }

def rqRecip3 (input : ℕ → ℤ) : ℤ × (ℕ → ℤ) :=
  let s := rqStep^[2 * p - 1] (recipInit (fqRecip 3) input)
  let scale := fqRecip (s.f 0)
  (int16NonzeroMask s.delta, fun i => fqFreeze (scale * s.v (p - 1 - i)))

section

variable {delta g0 : ℤ}

theorem swapMask_eq (hd : |delta| < 2 ^ 15) (hg : |g0| < 2 ^ 15) :
    swapMask delta g0 = if 0 < delta ∧ g0 ≠ 0 then -1 else 0 := by
  rw [abs_lt] at hd hg
  rw [swapMask, int16NegativeMask_eq (by omega) (by omega), int16NonzeroMask_eq (by omega) (by omega)]
  by_cases h1 : 0 < delta
  · rw [if_pos (show -delta < 0 by omega)]
    by_cases h2 : g0 = 0
    · rw [if_pos h2, if_neg (by tauto)]
      rfl
    · rw [if_neg h2, if_pos ⟨h1, h2⟩]
      rfl
  · rw [if_neg (show ¬ -delta < 0 by omega), and32_zero, if_neg (by tauto)]

theorem nextDelta_zero (hd : |delta| < 2 ^ 15) : nextDelta 0 delta = delta + 1 := by
  rw [abs_lt] at hd
  rw [nextDelta, and32_zero, xor32_zero (by omega) (by omega)]

theorem nextDelta_ones (hd : |delta| < 2 ^ 15) : nextDelta (-1) delta = 1 - delta := by
  rw [abs_lt] at hd
  obtain ⟨h, h'⟩ := xor32_range delta (-delta)
  rw [nextDelta, and32_ones h h', xor32_xor32 (by omega) (by omega)]
  ring

end

section

variable {N : ℕ} [Fact N.Prime] {b : ℤ} {n : ℕ} {s : RecipState} {t : Divstep.State (ZMod N)}

structure RecipState.Bounded (b : ℤ) (s : RecipState) : Prop where
  f : ∀ i, |s.f i| ≤ b
  g : ∀ i, |s.g i| ≤ b
  v : ∀ i, |s.v i| ≤ b
  r : ∀ i, |s.r i| ≤ b

/-- The arrays after `n` rounds are the first coefficients of the state `t`. -/
structure Tracks (n : ℕ) (s : RecipState) (t : Divstep.State (ZMod N)) : Prop where
  delta : s.delta = t.δ
  range : |s.delta| ≤ n + 1
  const : (s.f 0 : ZMod N) ≠ 0
  f : t.f = poly (p + 1) fun i => (s.f i : ZMod N)
  g : t.g = poly (p + 1) fun i => (s.g i : ZMod N)
  v : ∀ i ≤ p, t.v.coeff i = (s.v i : ZMod N)
  r : ∀ i ≤ p, t.r.coeff i = (s.r i : ZMod N)

theorem X_mul_poly {K : Type*} [CommRing K] {n : ℕ} {α β : K} {f g : ℕ → K} (h0 : α * g 0 - β * f 0 = 0) :
    X * poly (n + 1) (fun i => if i < n then α * g (i + 1) - β * f (i + 1) else 0) =
      C α * poly (n + 1) g - C β * poly (n + 1) f := by
  rw [← poly_smul, ← poly_smul, ← poly_sub]
  ext k
  cases k with
  | zero => rw [coeff_X_mul_zero, coeff_poly, if_pos (by omega), h0]
  | succ k =>
    rw [coeff_X_mul, coeff_poly, coeff_poly]
    split_ifs <;> first | rfl | omega

theorem X_mul_shiftDown {α β : ZMod N} {f g g' : ℕ → ℤ} (h0 : α * (g 0 : ZMod N) - β * f 0 = 0)
    (hg : ∀ i ≤ p, (g' i : ZMod N) = α * g i - β * f i) :
    X * poly (p + 1) (fun i => (shiftDown g' i : ZMod N)) =
      C α * poly (p + 1) (fun i => (g i : ZMod N)) - C β * poly (p + 1) fun i => (f i : ZMod N) := by
  have hshift : ∀ i < p + 1, (shiftDown g' i : ZMod N) =
      if i < p then α * (g (i + 1) : ZMod N) - β * f (i + 1) else 0 := by
    intro i hi
    by_cases hip : i < p
    · rw [shiftDown, if_pos hip, if_pos hip, hg (i + 1) hip]
    · rw [shiftDown, if_neg hip, if_neg hip, Int.cast_zero]
  rw [poly_congr hshift]
  exact X_mul_poly (f := fun i => (f i : ZMod N)) (g := fun i => (g i : ZMod N)) h0

theorem coeff_X_mul_shiftUp {V : (ZMod N)[X]} {v : ℕ → ℤ} (h : ∀ i ≤ p, V.coeff i = (v i : ZMod N)) :
    ∀ i ≤ p, (X * V).coeff i = (shiftUp v i : ZMod N) := by
  intro i hi
  cases i with
  | zero => rw [coeff_X_mul_zero, shiftUp, if_pos rfl, Int.cast_zero]
  | succ i =>
    rw [coeff_X_mul, h i (by omega), shiftUp, if_neg (Nat.succ_ne_zero i)]
    rfl

theorem Tracks.keep (h : Tracks n s t) {α β : ZMod N} {g' r' : ℕ → ℤ} (hα : α ≠ 0) (hβ : s.delta ≤ 0 ∨ β = 0)
    (h0 : α * (s.g 0 : ZMod N) - β * s.f 0 = 0)
    (hg : ∀ i ≤ p, (g' i : ZMod N) = α * s.g i - β * s.f i)
    (hr : ∀ i ≤ p, (r' i : ZMod N) = α * s.r i - β * shiftUp s.v i) :
    ∃ t', Divstep.Step t t' ∧ Tracks (n + 1) ⟨s.f, shiftDown g', shiftUp s.v, r', s.delta + 1⟩ t' := by
  have hg' := X_mul_shiftDown h0 hg
  rw [← h.g, ← h.f] at hg'
  have hrange := abs_add_le s.delta 1
  have hle := h.range
  refine ⟨_, .keep hα (h.delta ▸ hβ) hg', by rw [← h.delta], ?_, h.const, h.f, by dsimp only, coeff_X_mul_shiftUp h.v,
    fun i hi => ?_⟩
  · rw [abs_one] at hrange
    push_cast
    omega
  · rw [coeff_sub, coeff_C_mul, coeff_C_mul, h.r i hi, coeff_X_mul_shiftUp h.v i hi]
    exact (hr i hi).symm

theorem Tracks.swap (h : Tracks n s t) {α β : ZMod N} {g' r' : ℕ → ℤ} (hα : α ≠ 0) (hδ : 0 < s.delta)
    (hg0 : (s.g 0 : ZMod N) ≠ 0) (h0 : α * (s.f 0 : ZMod N) - β * s.g 0 = 0)
    (hg : ∀ i ≤ p, (g' i : ZMod N) = α * s.f i - β * s.g i)
    (hr : ∀ i ≤ p, (r' i : ZMod N) = α * shiftUp s.v i - β * s.r i) :
    ∃ t', Divstep.Step t t' ∧ Tracks (n + 1) ⟨s.g, shiftDown g', s.r, r', 1 - s.delta⟩ t' := by
  have hg' := X_mul_shiftDown h0 hg
  rw [← h.g, ← h.f] at hg'
  have hrange := abs_sub 1 s.delta
  have hle := h.range
  have hconst : t.g.coeff 0 ≠ 0 := by rwa [h.g, coeff_poly, if_pos (Nat.succ_pos p)]
  refine ⟨_, .swap hα (h.delta ▸ hδ) hconst hg', by rw [← h.delta], ?_, hg0, h.g, by dsimp only, h.r, fun i hi => ?_⟩
  · rw [abs_one] at hrange
    push_cast
    omega
  · rw [coeff_sub, coeff_C_mul, coeff_C_mul, h.r i hi, coeff_X_mul_shiftUp h.v i hi]
    exact (hr i hi).symm

theorem RecipState.Bounded.shiftUp (h : s.Bounded b) (i : ℕ) : |shiftUp s.v i| ≤ b := by
  rw [Sntrup.shiftUp]
  split
  · rw [abs_zero]
    exact (abs_nonneg _).trans (h.v 0)
  · exact h.v _

theorem abs_shiftDown_le {g : ℕ → ℤ} (hg : ∀ i, |g i| ≤ b) (i : ℕ) : |shiftDown g i| ≤ b := by
  rw [shiftDown]
  split
  · exact hg _
  · rw [abs_zero]
    exact (abs_nonneg _).trans (hg 0)

theorem RecipState.Bounded.condSwap_zero (h : s.Bounded b) (hb : b < 2 ^ 31) :
    (∀ i, condSwap 0 (s.f i) (s.g i) = (s.f i, s.g i)) ∧
      ∀ i, condSwap 0 (Sntrup.shiftUp s.v i) (s.r i) = (Sntrup.shiftUp s.v i, s.r i) := by
  refine ⟨fun i => ?_, fun i => ?_⟩
  · obtain ⟨h1, h2⟩ := abs_le.mp (h.f i)
    obtain ⟨h3, h4⟩ := abs_le.mp (h.g i)
    exact Sntrup.condSwap_zero (by omega) (by omega) (by omega) (by omega)
  · obtain ⟨h1, h2⟩ := abs_le.mp (h.shiftUp i)
    obtain ⟨h3, h4⟩ := abs_le.mp (h.r i)
    exact Sntrup.condSwap_zero (by omega) (by omega) (by omega) (by omega)

theorem RecipState.Bounded.condSwap_ones (h : s.Bounded b) (hb : b < 2 ^ 31) :
    (∀ i, condSwap (-1) (s.f i) (s.g i) = (s.g i, s.f i)) ∧
      ∀ i, condSwap (-1) (Sntrup.shiftUp s.v i) (s.r i) = (s.r i, Sntrup.shiftUp s.v i) := by
  refine ⟨fun i => ?_, fun i => ?_⟩
  · obtain ⟨h1, h2⟩ := abs_le.mp (h.f i)
    obtain ⟨h3, h4⟩ := abs_le.mp (h.g i)
    exact Sntrup.condSwap_ones (by omega) (by omega) (by omega) (by omega)
  · obtain ⟨h1, h2⟩ := abs_le.mp (h.shiftUp i)
    obtain ⟨h3, h4⟩ := abs_le.mp (h.r i)
    exact Sntrup.condSwap_ones (by omega) (by omega) (by omega) (by omega)

theorem Tracks.swapMask (h : Tracks n s t) (hs : s.Bounded b) (hb : b < 2 ^ 15) (hn : n < 2 * p)
    (hzero : (s.g 0 : ZMod N) = 0 → s.g 0 = 0) :
    (swapMask s.delta (s.g 0) = 0 ∧ (s.delta ≤ 0 ∨ s.g 0 = 0) ∧ nextDelta 0 s.delta = s.delta + 1) ∨
      (swapMask s.delta (s.g 0) = -1 ∧ 0 < s.delta ∧ (s.g 0 : ZMod N) ≠ 0 ∧ nextDelta (-1) s.delta = 1 - s.delta) := by
  have hp : p = 761 := rfl
  have hdelta : |s.delta| < 2 ^ 15 := by
    have := h.range
    omega
  have hg : |s.g 0| < 2 ^ 15 := (hs.g 0).trans_lt hb
  by_cases hswap : 0 < s.delta ∧ s.g 0 ≠ 0
  · right
    exact ⟨by rw [swapMask_eq hdelta hg, if_pos hswap], hswap.1, fun h0 => hswap.2 (hzero h0), nextDelta_ones hdelta⟩
  · left
    refine ⟨by rw [swapMask_eq hdelta hg, if_neg hswap], ?_, nextDelta_zero hdelta⟩
    by_contra hne
    exact hswap (by omega)

end

/-! ### Modulo 3 -/

section

variable {n : ℕ} {s : RecipState}

theorem abs_mul_le {x y a b : ℤ} (hx : |x| ≤ a) (hy : |y| ≤ b) : |x * y| ≤ a * b := by
  rw [abs_mul]
  exact mul_le_mul hx hy (abs_nonneg y) ((abs_nonneg x).trans hx)

theorem abs_sign_le {x y a c : ℤ} (hx : |x| ≤ 1) (hy : |y| ≤ 1) (ha : |a| ≤ 1) (hc : |c| ≤ 1) :
    |x + -a * c * y| ≤ 2 ^ 15 - 1 := by
  have h1 := abs_mul_le (abs_mul_le ((abs_neg a).trans_le ha) hc) hy
  have h2 := abs_add_le x (-a * c * y)
  omega

theorem sign_mul_self {a : ℤ} (ha : |a| ≤ 1) (h0 : (a : ZMod 3) ≠ 0) : a * a = 1 := by
  have hne : a ≠ 0 := fun h => h0 (by rw [h, Int.cast_zero])
  obtain ⟨h1, h2⟩ := abs_le.mp ha
  obtain h3 | h3 : a = 1 ∨ a = -1 := by omega
  all_goals rw [h3]; rfl

theorem r3Step_tracks {t : Divstep.State (ZMod 3)} (hs : s.Bounded 1) (h : Tracks n s t) (hn : n < 2 * p) :
    (r3Step s).Bounded 1 ∧ ∃ t', Divstep.Step t t' ∧ Tracks (n + 1) (r3Step s) t' := by
  have hf0 : (s.f 0 : ZMod 3) * s.f 0 = 1 := by
    rw [← Int.cast_mul, sign_mul_self (hs.f 0) h.const, Int.cast_one]
  have hzero : (s.g 0 : ZMod 3) = 0 → s.g 0 = 0 := by
    intro h0
    exact eq_of_cast_three (hs.g 0) (by decide) (by rw [h0, Int.cast_zero])
  obtain ⟨hmask, hδ, hnext⟩ | ⟨hmask, hδ, hg0, hnext⟩ := h.swapMask hs (by decide) hn hzero
  · obtain ⟨hfg, hvr⟩ := hs.condSwap_zero (by decide)
    have hg := fun i => abs_sign_le (hs.g i) (hs.f i) (hs.g 0) (hs.f 0)
    have hr := fun i => abs_sign_le (hs.r i) (hs.shiftUp i) (hs.g 0) (hs.f 0)
    simp only [r3Step, hmask, hfg, hvr, hnext]
    refine ⟨⟨hs.f, abs_shiftDown_le fun i => f3_freezes.le _ (hg i), hs.shiftUp, fun i => f3_freezes.le _ (hr i)⟩, ?_⟩
    apply h.keep (α := 1) (β := s.g 0 * s.f 0) one_ne_zero
    · obtain hδ | hδ := hδ
      · exact .inl hδ
      · exact .inr (by rw [hδ, Int.cast_zero, zero_mul])
    · linear_combination -(s.g 0 : ZMod 3) * hf0
    · intro i _
      rw [f3_freezes.cast _ (hg i)]
      push_cast
      ring
    · intro i _
      rw [f3_freezes.cast _ (hr i)]
      push_cast
      ring
  · obtain ⟨hfg, hvr⟩ := hs.condSwap_ones (by decide)
    have hg := fun i => abs_sign_le (hs.f i) (hs.g i) (hs.g 0) (hs.f 0)
    have hr := fun i => abs_sign_le (hs.shiftUp i) (hs.r i) (hs.g 0) (hs.f 0)
    have hg0' : (s.g 0 : ZMod 3) * s.g 0 = 1 := by
      rw [← Int.cast_mul, sign_mul_self (hs.g 0) hg0, Int.cast_one]
    simp only [r3Step, hmask, hfg, hvr, hnext]
    refine ⟨⟨hs.g, abs_shiftDown_le fun i => f3_freezes.le _ (hg i), hs.r, fun i => f3_freezes.le _ (hr i)⟩, ?_⟩
    apply h.swap (α := 1) (β := s.g 0 * s.f 0) one_ne_zero hδ hg0
    · linear_combination -(s.f 0 : ZMod 3) * hg0'
    · intro i _
      rw [f3_freezes.cast _ (hg i)]
      push_cast
      ring
    · intro i _
      rw [f3_freezes.cast _ (hr i)]
      push_cast
      ring

end

section

variable {n : ℕ} {s : RecipState}

instance : Fact (Nat.Prime q) := ⟨by rw [q]; norm_num⟩

theorem fqRecip_cast {a : ℤ} (ha : |a| ≤ q12) : |fqRecip a| ≤ q12 ∧ (fqRecip a : ZMod q) = (a : ZMod q) ^ (q - 2) := by
  have hq12 : (q12 : ℤ) = 2295 := rfl
  have hrun : ∀ k, |(List.range k).foldl (fun ai _ => fqFreeze (a * ai)) a| ≤ q12 ∧
      (((List.range k).foldl (fun ai _ => fqFreeze (a * ai)) a : ℤ) : ZMod q) = (a : ZMod q) ^ (k + 1) := by
    intro k
    induction k with
    | zero => exact ⟨ha, (pow_one _).symm⟩
    | succ k ih =>
      obtain ⟨h1, h2⟩ := ih
      have hle := abs_mul_le ha h1
      rw [hq12] at hle
      rw [List.range_succ, List.foldl_append, List.foldl_cons, List.foldl_nil]
      refine ⟨fq_freezes.le _ (by omega), ?_⟩
      rw [fq_freezes.cast _ (by omega), Int.cast_mul, h2]
      ring
  have hlast := hrun (q - 3)
  rw [show q - 3 + 1 = q - 2 by decide] at hlast
  exact hlast

theorem fqRecip_inv {a : ℤ} (ha : |a| ≤ q12) (h0 : (a : ZMod q) ≠ 0) : (fqRecip a : ZMod q) * a = 1 := by
  rw [(fqRecip_cast ha).2, ← pow_succ]
  exact ZMod.pow_card_sub_one_eq_one h0

theorem abs_cross_le {x y a c : ℤ} (hx : |x| ≤ q12) (hy : |y| ≤ q12) (ha : |a| ≤ q12) (hc : |c| ≤ q12) :
    |a * x - c * y| ≤ 2 ^ 31 - 2 ^ 12 := by
  have hq12 : (q12 : ℤ) = 2295 := rfl
  have h1 := abs_mul_le ha hx
  have h2 := abs_mul_le hc hy
  have h3 := abs_sub (a * x) (c * y)
  rw [hq12] at h1 h2
  omega

theorem rqStep_tracks {t : Divstep.State (ZMod q)} (hs : s.Bounded q12) (h : Tracks n s t) (hn : n < 2 * p) :
    (rqStep s).Bounded q12 ∧ ∃ t', Divstep.Step t t' ∧ Tracks (n + 1) (rqStep s) t' := by
  have hzero : (s.g 0 : ZMod q) = 0 → s.g 0 = 0 := by
    intro h0
    exact eq_of_cast_q (hs.g 0) (by decide) (by rw [h0, Int.cast_zero])
  obtain ⟨hmask, hδ, hnext⟩ | ⟨hmask, hδ, hg0, hnext⟩ := h.swapMask hs (by decide) hn hzero
  · obtain ⟨hfg, hvr⟩ := hs.condSwap_zero (by decide)
    have hg := fun i => abs_cross_le (hs.g i) (hs.f i) (hs.f 0) (hs.g 0)
    have hr := fun i => abs_cross_le (hs.r i) (hs.shiftUp i) (hs.f 0) (hs.g 0)
    simp only [rqStep, hmask, hfg, hvr, hnext]
    refine ⟨⟨hs.f, abs_shiftDown_le fun i => fq_freezes.le _ (hg i), hs.shiftUp, fun i => fq_freezes.le _ (hr i)⟩, ?_⟩
    apply h.keep (α := s.f 0) (β := s.g 0) h.const
    · obtain hδ | hδ := hδ
      · exact .inl hδ
      · exact .inr (by rw [hδ, Int.cast_zero])
    · ring
    · intro i _
      rw [fq_freezes.cast _ (hg i)]
      push_cast
      ring
    · intro i _
      rw [fq_freezes.cast _ (hr i)]
      push_cast
      ring
  · obtain ⟨hfg, hvr⟩ := hs.condSwap_ones (by decide)
    have hg := fun i => abs_cross_le (hs.f i) (hs.g i) (hs.g 0) (hs.f 0)
    have hr := fun i => abs_cross_le (hs.shiftUp i) (hs.r i) (hs.g 0) (hs.f 0)
    simp only [rqStep, hmask, hfg, hvr, hnext]
    refine ⟨⟨hs.g, abs_shiftDown_le fun i => fq_freezes.le _ (hg i), hs.r, fun i => fq_freezes.le _ (hr i)⟩, ?_⟩
    apply h.swap (α := s.g 0) (β := s.f 0) hg0 hδ hg0
    · ring
    · intro i _
      rw [fq_freezes.cast _ (hg i)]
      push_cast
      ring
    · intro i _
      rw [fq_freezes.cast _ (hr i)]
      push_cast
      ring

end

section

variable {N : ℕ} [Fact N.Prime] {b r0 : ℤ} {input : ℕ → ℤ}

def Simulates (N : ℕ) [Fact N.Prime] (b : ℤ) (step : RecipState → RecipState) : Prop :=
  ∀ n s (t : Divstep.State (ZMod N)), n < 2 * p → s.Bounded b → Tracks n s t →
    (step s).Bounded b ∧ ∃ t', Divstep.Step t t' ∧ Tracks (n + 1) (step s) t'

theorem Simulates.run {step : RecipState → RecipState} (h : Simulates N b step) {s : RecipState}
    {t : Divstep.State (ZMod N)} (hs : s.Bounded b) (ht : Tracks 0 s t) :
    ∀ n ≤ 2 * p, (step^[n] s).Bounded b ∧ ∃ u, Divstep.Steps n t u ∧ Tracks n (step^[n] s) u := by
  intro n
  induction n with
  | zero => exact fun _ => ⟨hs, t, .refl t, ht⟩
  | succ n ih =>
    intro hn
    obtain ⟨hb, u, hu, htr⟩ := ih (by omega)
    obtain ⟨hb', u', hu', htr'⟩ := h n _ u (by omega) hb htr
    rw [Function.iterate_succ_apply']
    exact ⟨hb', u', .step hu hu', htr'⟩

theorem recipInit_bounded (hb : 1 ≤ b) (hr : |r0| ≤ b) (hin : IsSmall input) : (recipInit r0 input).Bounded b where
  f i := by
    rw [recipInit]
    dsimp only
    split_ifs
    · rwa [abs_one]
    · rwa [abs_neg, abs_one]
    · rw [abs_zero]
      omega
  g i := by
    rw [recipInit]
    dsimp only
    split
    · exact (hin.abs_le_one (by omega)).trans hb
    · rw [abs_zero]
      omega
  v i := by
    rw [recipInit, abs_zero]
    omega
  r i := by
    rw [recipInit]
    dsimp only
    split
    · exact hr
    · rw [abs_zero]
      omega

theorem recipInit_tracks (r0 : ℤ) (input : ℕ → ℤ) :
    Tracks 0 (recipInit r0 input) ⟨1, reflect p (modulus (ZMod N) p),
      reflect (p - 1) (poly p fun i => (input i : ZMod N)), 0, C (r0 : ZMod N)⟩ where
  delta := rfl
  range := by simp [recipInit]
  const := by simp [recipInit]
  f := by
    dsimp only
    rw [reflect_modulus (by decide)]
    apply poly_congr
    intro i _
    simp only [recipInit]
    push_cast
    rfl
  g := by
    dsimp only
    have hrev := reflect_poly (p - 1) fun i => (input i : ZMod N)
    rw [show p - 1 + 1 = p from rfl] at hrev
    rw [hrev, ← poly_extend]
    apply poly_congr
    intro i _
    simp only [recipInit]
    push_cast
    rfl
  v i _ := by simp [recipInit]
  r i _ := by
    dsimp only
    rw [coeff_C]
    simp only [recipInit]
    push_cast
    rfl

theorem recip_end {step : RecipState → RecipState} (h : Simulates N b step) (hb : 1 ≤ b) (hr : |r0| ≤ b)
    (hr0 : (r0 : ZMod N) ≠ 0) (hin : IsSmall input) {s : RecipState}
    (hs : step^[2 * p - 1] (recipInit r0 input) = s) :
    s.Bounded b ∧ |s.delta| ≤ 2 * p ∧ (s.delta = 0 ↔ IsUnit (modp N input)) ∧ (s.f 0 : ZMod N) ≠ 0 ∧
      (s.delta = 0 → modp N (fun i => s.v (p - 1 - i)) * modp N input = r0 * s.f 0) := by
  obtain ⟨hbound, u, hu, htr⟩ := h.run (recipInit_bounded hb hr hin) (recipInit_tracks r0 input) (2 * p - 1) (by omega)
  rw [hs] at hbound htr
  obtain ⟨hiff, hinv⟩ := steps_cls (by decide) hr0 hu htr.f fun i hi => htr.v i hi.le
  rw [← htr.delta] at hiff hinv
  refine ⟨hbound, ?_, hiff, htr.const, fun hδ => ?_⟩
  · have hrange := htr.range
    have hp : p = 761 := rfl
    omega
  · have hmul := hinv hδ
    rw [map_mul, map_intCast, map_intCast] at hmul
    exact hmul

theorem deltaMask {delta : ℤ} (h : |delta| ≤ 2 * p) :
    (int16NonzeroMask delta = 0 ∨ int16NonzeroMask delta = -1) ∧ (int16NonzeroMask delta = 0 ↔ delta = 0) := by
  have hp : p = 761 := rfl
  rw [abs_le] at h
  rw [int16NonzeroMask_eq (by omega) (by omega)]
  split_ifs with h0
  · exact ⟨.inl rfl, by simp [h0]⟩
  · exact ⟨.inr rfl, by simp [h0]⟩

theorem r3Recip_eq (hin : IsSmall input) :
    IsSmall (r3Recip input).2 ∧ ((r3Recip input).1 = 0 ↔ IsUnit (modp 3 input)) ∧
      ((r3Recip input).1 = 0 ∨ (r3Recip input).1 = -1) ∧
      ((r3Recip input).1 = 0 → modp 3 (r3Recip input).2 * modp 3 input = 1) := by
  have hsim : Simulates 3 1 r3Step := fun n s t hn hs ht => r3Step_tracks hs ht hn
  obtain ⟨s, hs⟩ : ∃ s, r3Step^[2 * p - 1] (recipInit 1 input) = s := ⟨_, rfl⟩
  obtain ⟨hb, hrange, hiff, hconst, hinv⟩ := recip_end hsim le_rfl (show |(1 : ℤ)| ≤ 1 by decide) (by decide) hin hs
  have hret : r3Recip input = (int16NonzeroMask s.delta, fun i => s.f 0 * s.v (p - 1 - i)) := by rw [r3Recip, hs]
  obtain ⟨hmask, hzero⟩ := deltaMask hrange
  rw [hret]
  refine ⟨fun i _ => ?_, hzero.trans hiff, hmask, fun h => ?_⟩
  · exact abs_le.mp (abs_mul_le (hb.f 0) (hb.v (p - 1 - i)))
  · have hsq := sign_mul_self (hb.f 0) hconst
    rw [modp_smul, mul_assoc, hinv (hzero.mp h), Int.cast_one, one_mul, ← Int.cast_mul, hsq, Int.cast_one]

theorem rqRecip3_eq (hin : IsSmall input) :
    IsFq (rqRecip3 input).2 ∧ ((rqRecip3 input).1 = 0 ↔ IsUnit (modp q input)) ∧
      ((rqRecip3 input).1 = 0 ∨ (rqRecip3 input).1 = -1) ∧
      ((rqRecip3 input).1 = 0 → modp q (rqRecip3 input).2 * (3 * modp q input) = 1) := by
  have hsim : Simulates q q12 rqStep := fun n s t hn hs ht => rqStep_tracks hs ht hn
  have h3 : ((3 : ℤ) : ZMod q) ≠ 0 := by decide
  have hthird := fqRecip_inv (a := 3) (by decide) h3
  have hr0 : (fqRecip 3 : ZMod q) ≠ 0 := left_ne_zero_of_mul (hthird ▸ one_ne_zero)
  obtain ⟨s, hs⟩ : ∃ s, rqStep^[2 * p - 1] (recipInit (fqRecip 3) input) = s := ⟨_, rfl⟩
  obtain ⟨hb, hrange, hiff, hconst, hinv⟩ := recip_end hsim (by decide) (fqRecip_cast (by decide)).1 hr0 hin hs
  have hret : rqRecip3 input =
      (int16NonzeroMask s.delta, fun i => fqFreeze (fqRecip (s.f 0) * s.v (p - 1 - i))) := by rw [rqRecip3, hs]
  have hq12 : (q12 : ℤ) = 2295 := rfl
  obtain ⟨hmask, hzero⟩ := deltaMask hrange
  have hle : ∀ i, |fqRecip (s.f 0) * s.v (p - 1 - i)| ≤ 2 ^ 31 - 2 ^ 12 := by
    intro i
    have h := abs_mul_le (fqRecip_cast (hb.f 0)).1 (hb.v (p - 1 - i))
    rw [hq12] at h
    omega
  rw [hret]
  refine ⟨fun i _ => abs_le.mp (fq_freezes.le _ (hle i)), hzero.trans hiff, hmask, fun h => ?_⟩
  · have hscale := fqRecip_inv (hb.f 0) hconst
    have hout : modp q (fun i => fqFreeze (fqRecip (s.f 0) * s.v (p - 1 - i))) =
        fqRecip (s.f 0) * modp q fun i => s.v (p - 1 - i) := by
      rw [← modp_smul]
      exact modp_congr fun i _ => fq_freezes.cast _ (hle i)
    have hcast : ∀ x y : ℤ, (x : ZMod q) * y = 1 → (x : AdjoinRoot (modulus (ZMod q) p)) * y = 1 := by
      intro x y hxy
      have hof := congrArg (AdjoinRoot.of (modulus (ZMod q) p)) hxy
      rwa [map_mul, map_intCast, map_intCast, map_one] at hof
    have h1 := hcast _ _ hthird
    have h2 := hcast _ _ hscale
    have h4 := hinv (hzero.mp h)
    rw [hout]
    rw [Int.cast_ofNat] at h1
    linear_combination 3 * fqRecip (s.f 0) * h4 + 3 * (fqRecip 3 : AdjoinRoot (modulus (ZMod q) p)) * h2 + h1

end

end TkTox.Sntrup
