import TkTox.SntrupRing

/-!
`Encrypt` and `Decrypt` of `sntrup761.c`: the noise of a ciphertext stays below `q / 2`, so that a key
takes back what its public part encrypted.
-/

open CoeffArray

namespace TkTox.Sntrup

def weightwMask (r : ℕ → ℤ) : ℤ :=
  int16NonzeroMask ((List.range p).foldl (fun weight i => weight + and32 (r i) 1) 0 - w)

def encrypt (r h : ℕ → ℤ) : ℕ → ℤ := round (rqMultSmall h r)

def decrypt (c f ginv : ℕ → ℤ) (i : ℕ) : ℤ :=
  let cf := rqMultSmall c f
  let cf3 := rqMult3 cf
  let e := r3FromRq cf3
  let ev := r3Mult e ginv
  let mask := weightwMask ev
  if i < w then xor32 (and32 (xor32 (ev i) 1) (not32 mask)) 1 else and32 (ev i) (not32 mask)

section

variable {f g r c h : ℕ → ℤ} {N : ℕ}

noncomputable def modp (N : ℕ) (a : ℕ → ℤ) : AdjoinRoot (modulus (ZMod N) p) := cls p fun i => (a i : ZMod N)

theorem modp_congr (h : ∀ i < p, (f i : ZMod N) = g i) : modp N f = modp N g := cls_congr h

theorem modp_inj (h : modp N f = modp N g) : ∀ i < p, (f i : ZMod N) = g i := cls_inj (by decide) h

theorem modp_sub (f g : ℕ → ℤ) : modp N (fun i => f i - g i) = modp N f - modp N g := by
  rw [modp, modp, modp, ← cls_sub]
  exact cls_congr fun i _ => Int.cast_sub _ _

theorem modp_smul (x : ℤ) (f : ℕ → ℤ) : modp N (fun i => x * f i) = x * modp N f := by
  have h := cls_smul (n := p) (x : ZMod N) fun i => (f i : ZMod N)
  rw [map_intCast] at h
  rw [modp, modp, ← h]
  exact cls_congr fun i _ => Int.cast_mul _ _

theorem modp_mulMod (f g : ℕ → ℤ) : modp N (mulMod p f g) = modp N f * modp N g := by
  rw [modp, modp, modp, ← cls_mulMod (by decide)]
  exact cls_congr fun i _ => mulMod_map (Int.castRingHom (ZMod N)) f g i

theorem IsSmall.abs_le_one (hf : IsSmall f) {i : ℕ} (hi : i < p) : |f i| ≤ 1 := abs_le.mpr (hf i hi)

theorem IsFq.abs_le_q12 (hf : IsFq f) {i : ℕ} (hi : i < p) : |f i| ≤ q12 := abs_le.mpr (hf i hi)

theorem rqMultSmall_modp (hf : IsFq f) (hg : IsSmall g) :
    IsFq (rqMultSmall f g) ∧ modp q (rqMultSmall f g) = modp q f * modp q g := by
  obtain ⟨h1, h2⟩ := fq_freezes.mult (by decide) (by decide) (fun i hi => hf.abs_le_q12 hi)
    fun i hi => hg.abs_le_one hi
  refine ⟨fun i hi => abs_le.mp (h1 i hi), ?_⟩
  rw [modp, modp, modp, ← cls_mulMod (by decide)]
  exact cls_congr h2

theorem r3Mult_modp (hf : IsSmall f) (hg : IsSmall g) :
    IsSmall (r3Mult f g) ∧ modp 3 (r3Mult f g) = modp 3 f * modp 3 g := by
  obtain ⟨h1, h2⟩ := f3_freezes.mult (by decide) (by decide) (fun i hi => hf.abs_le_one hi)
    fun i hi => hg.abs_le_one hi
  refine ⟨fun i hi => abs_le.mp (h1 i hi), ?_⟩
  rw [modp, modp, modp, ← cls_mulMod (by decide)]
  exact cls_congr h2

theorem rqMult3_modp (hf : IsFq f) : IsFq (rqMult3 f) ∧ modp q (rqMult3 f) = 3 * modp q f := by
  have hq12 : (q12 : ℤ) = 2295 := rfl
  have hle : ∀ i < p, |3 * f i| ≤ 2 ^ 31 - 2 ^ 12 := by
    intro i hi
    have h := hf i hi
    rw [abs_le]
    omega
  refine ⟨fun i hi => abs_le.mp (fq_freezes.le _ (hle i hi)), ?_⟩
  have h3 := modp_smul (N := q) 3 f
  rw [Int.cast_ofNat] at h3
  rw [← h3]
  exact modp_congr fun i hi => fq_freezes.cast _ (hle i hi)

theorem r3FromRq_modp (hf : IsFq f) : IsSmall (r3FromRq f) ∧ modp 3 (r3FromRq f) = modp 3 f := by
  have hq12 : (q12 : ℤ) = 2295 := rfl
  have hle : ∀ i < p, |f i| ≤ 2 ^ 15 - 1 := by
    intro i hi
    have h := hf i hi
    rw [abs_le]
    omega
  exact ⟨fun i hi => abs_le.mp (f3_freezes.le _ (hle i hi)), modp_congr fun i hi => f3_freezes.cast _ (hle i hi)⟩

theorem round_isRounded (hf : IsFq f) : IsRounded (round f) ∧ IsSmall fun i => f3Freeze (f i) := by
  have hq12 : (q12 : ℤ) = 2295 := rfl
  have hfreeze : ∀ i < p, f3Freeze (f i) = (f i + 1) % 3 - 1 := by
    intro i hi
    have h := hf i hi
    exact f3Freeze_eq (by omega) (by omega)
  refine ⟨⟨fun i hi => ?_, fun i hi => ?_⟩, fun i hi => ?_⟩
  · have h := hf i hi
    rw [round, hfreeze i hi]
    omega
  · rw [round, hfreeze i hi]
    omega
  · simp only [hfreeze i hi]
    omega

/-- Small, with `w` coefficients that are not 0. -/
def IsShort (r : ℕ → ℤ) : Prop := IsSmall r ∧ ∑ i ∈ Finset.range p, |r i| = w

theorem first_isShort : IsShort fun i => if i < w then 1 else 0 := by
  refine ⟨fun i _ => by dsimp only; split <;> omega, ?_⟩
  have hlow : ∑ i ∈ Finset.range w, |if i < w then (1 : ℤ) else 0| = ∑ i ∈ Finset.range w, 1 := by
    refine Finset.sum_congr rfl fun i hi => ?_
    rw [if_pos (Finset.mem_range.mp hi), abs_one]
  have hhigh : ∑ i ∈ Finset.range (p - w), |if w + i < w then (1 : ℤ) else 0| = 0 := by
    refine Finset.sum_eq_zero fun i _ => ?_
    rw [if_neg (by omega), abs_zero]
  rw [show p = w + (p - w) from rfl, Finset.sum_range_add, hlow, hhigh, Finset.sum_const, Finset.card_range, add_zero]
  simp

theorem IsShort.congr (hr : IsShort r) (heq : ∀ i < p, f i = r i) : IsShort f := by
  refine ⟨fun i hi => by rw [heq i hi]; exact hr.1 i hi, ?_⟩
  rw [← hr.2]
  exact Finset.sum_congr rfl fun i hi => by rw [heq i (Finset.mem_range.mp hi)]

theorem weightwMask_eq (hr : IsSmall r) : weightwMask r = if ∑ i ∈ Finset.range p, |r i| = w then 0 else -1 := by
  have habs : ∀ x : ℤ, -1 ≤ x → x ≤ 1 → and32 x 1 = |x| := by
    intro x h h'
    obtain rfl | rfl | rfl : x = -1 ∨ x = 0 ∨ x = 1 := by omega
    all_goals rfl
  have hsum : ∀ n ≤ p, (List.range n).foldl (fun weight i => weight + and32 (r i) 1) 0 =
      ∑ i ∈ Finset.range n, |r i| := by
    intro n
    induction n with
    | zero => exact fun _ => rfl
    | succ n ih =>
      intro hn
      obtain ⟨h, h'⟩ := hr n (by omega)
      rw [List.range_succ, List.foldl_append, ih (by omega), Finset.sum_range_succ, List.foldl_cons, List.foldl_nil,
        habs _ h h']
  have hpos : 0 ≤ ∑ i ∈ Finset.range p, |r i| := Finset.sum_nonneg fun _ _ => abs_nonneg _
  have hle : ∑ i ∈ Finset.range p, |r i| ≤ p := by
    have h := Finset.sum_le_card_nsmul (Finset.range p) (fun i => |r i|) 1
      fun i hi => hr.abs_le_one (Finset.mem_range.mp hi)
    simpa using h
  have hp : (p : ℤ) = 761 := rfl
  have hw : (w : ℤ) = 286 := rfl
  rw [weightwMask, hsum p le_rfl, int16NonzeroMask_eq (by omega) (by omega)]
  exact if_congr sub_eq_zero rfl rfl

theorem select_zero {x : ℤ} (h : -1 ≤ x ∧ x ≤ 1) :
    xor32 (and32 (xor32 x 1) (not32 0)) 1 = x ∧ and32 x (not32 0) = x := by
  obtain rfl | rfl | rfl : x = -1 ∨ x = 0 ∨ x = 1 := by omega
  all_goals exact ⟨rfl, rfl⟩

theorem select_ones {x : ℤ} (h : -1 ≤ x ∧ x ≤ 1) :
    xor32 (and32 (xor32 x 1) (not32 (-1))) 1 = 1 ∧ and32 x (not32 (-1)) = 0 := by
  obtain rfl | rfl | rfl : x = -1 ∨ x = 0 ∨ x = 1 := by omega
  all_goals exact ⟨rfl, rfl⟩

def decrypted (c f ginv : ℕ → ℤ) : ℕ → ℤ := r3Mult (r3FromRq (rqMult3 (rqMultSmall c f))) ginv

variable {ginv : ℕ → ℤ}

theorem decrypted_isSmall (hc : IsFq c) (hf : IsSmall f) (hv : IsSmall ginv) :
    IsSmall (decrypted c f ginv) ∧
      modp 3 (decrypted c f ginv) = modp 3 (rqMult3 (rqMultSmall c f)) * modp 3 ginv := by
  have hcf := (rqMultSmall_modp hc hf).1
  obtain ⟨he, hmod⟩ := r3FromRq_modp (rqMult3_modp hcf).1
  obtain ⟨hev, hmod'⟩ := r3Mult_modp he hv
  exact ⟨hev, by rw [decrypted, hmod', hmod]⟩

theorem decrypt_of_short (hc : IsFq c) (hf : IsSmall f) (hv : IsSmall ginv)
    (hev : ∑ i ∈ Finset.range p, |decrypted c f ginv i| = w) {i : ℕ} (hi : i < p) :
    decrypt c f ginv i = decrypted c f ginv i := by
  have hsmall := (decrypted_isSmall hc hf hv).1
  have hmask : weightwMask (decrypted c f ginv) = 0 := by rw [weightwMask_eq hsmall, if_pos hev]
  obtain ⟨h1, h2⟩ := select_zero (hsmall i hi)
  change (if i < w then xor32 (and32 (xor32 (decrypted c f ginv i) 1) (not32 (weightwMask (decrypted c f ginv)))) 1
    else and32 (decrypted c f ginv i) (not32 (weightwMask (decrypted c f ginv)))) = _
  rw [hmask, h1, h2, ite_self]

theorem decrypt_of_not_short (hc : IsFq c) (hf : IsSmall f) (hv : IsSmall ginv)
    (hev : ∑ i ∈ Finset.range p, |decrypted c f ginv i| ≠ w) {i : ℕ} (hi : i < p) :
    decrypt c f ginv i = if i < w then 1 else 0 := by
  have hsmall := (decrypted_isSmall hc hf hv).1
  have hmask : weightwMask (decrypted c f ginv) = -1 := by rw [weightwMask_eq hsmall, if_neg hev]
  obtain ⟨h1, h2⟩ := select_ones (hsmall i hi)
  change (if i < w then xor32 (and32 (xor32 (decrypted c f ginv i) 1) (not32 (weightwMask (decrypted c f ginv)))) 1
    else and32 (decrypted c f ginv i) (not32 (weightwMask (decrypted c f ginv)))) = _
  rw [hmask, h1, h2]

theorem decrypt_isShort (hc : IsFq c) (hf : IsSmall f) (hv : IsSmall ginv) : IsShort (decrypt c f ginv) := by
  have hsmall := (decrypted_isSmall hc hf hv).1
  by_cases hev : ∑ i ∈ Finset.range p, |decrypted c f ginv i| = w
  · exact IsShort.congr ⟨hsmall, hev⟩ fun i hi => decrypt_of_short hc hf hv hev hi
  · exact first_isShort.congr fun i hi => decrypt_of_not_short hc hf hv hev hi

/-- A key: `h = g / (3 f)` in `R / q` and `ginv = 1 / g` in `R / 3`. -/
structure IsKey (h f g ginv : ℕ → ℤ) : Prop where
  isFq : IsFq h
  isShort : IsShort f
  isSmall : IsSmall g
  ginvSmall : IsSmall ginv
  encap : modp q h * (3 * modp q f) = modp q g
  decap : modp 3 ginv * modp 3 g = 1

theorem eq_of_cast_q {x y : ℤ} (hx : |x| ≤ q12) (hy : |y| ≤ q12) (h : (x : ZMod q) = y) : x = y := by
  have hq12 : (q12 : ℤ) = 2295 := rfl
  have hq : (q : ℤ) = 4591 := rfl
  rw [ZMod.intCast_eq_intCast_iff, Int.ModEq, hq] at h
  rw [abs_le] at hx hy
  omega

theorem eq_of_cast_three {x y : ℤ} (hx : |x| ≤ 1) (hy : |y| ≤ 1) (h : (x : ZMod 3) = y) : x = y := by
  rw [ZMod.intCast_eq_intCast_iff, Int.ModEq] at h
  rw [abs_le] at hx hy
  omega

-- `8 w ≤ q12`: neither the message's part nor the rounding's can wrap
theorem decryption_noise (hr : IsShort r) (hg : IsSmall g) (hf : IsShort f) {m : ℕ → ℤ} (hm : IsSmall m) {i : ℕ}
    (hi : i < p) : |mulMod p r g i - 3 * mulMod p f m i| ≤ q12 := by
  have h1 : |mulMod p r g i| ≤ 2 * ∑ j ∈ Finset.range p, |r j| := abs_mulMod_le (fun j hj => hg.abs_le_one hj) hi
  have h2 : |mulMod p f m i| ≤ 2 * ∑ j ∈ Finset.range p, |f j| := abs_mulMod_le (fun j hj => hm.abs_le_one hj) hi
  have h3 := abs_sub (mulMod p r g i) (3 * mulMod p f m i)
  have hq12 : (q12 : ℤ) = 2295 := rfl
  have hw : (w : ℤ) = 286 := rfl
  rw [hr.2] at h1
  rw [hf.2] at h2
  rw [abs_mul, abs_of_nonneg (show (0 : ℤ) ≤ 3 by decide)] at h3
  omega

theorem encrypt_modp (hh : IsFq h) (hr : IsSmall r) : IsRounded (encrypt r h) ∧
    ∃ m, IsSmall m ∧ modp q (encrypt r h) = modp q h * modp q r - modp q m := by
  obtain ⟨hhr, hhrq⟩ := rqMultSmall_modp hh hr
  obtain ⟨hround, hm⟩ := round_isRounded hhr
  refine ⟨hround, _, hm, ?_⟩
  rw [← hhrq, ← modp_sub]
  rfl

theorem decrypt_noisy (hk : IsKey h f g ginv) (hr : IsShort r) {m : ℕ → ℤ} (hm : IsSmall m) (hc : IsFq c)
    (hcq : modp q c = modp q h * modp q r - modp q m) {i : ℕ} (hi : i < p) : decrypt c f ginv i = r i := by
  obtain ⟨hcf, hcfq⟩ := rqMultSmall_modp hc hk.isShort.1
  obtain ⟨hcf3, hcf3q⟩ := rqMult3_modp hcf
  -- `3 c f = g r - 3 f m` modulo `q`, and both sides are small
  set t := fun i => mulMod p r g i - 3 * mulMod p f m i with ht
  have hq : modp q (rqMult3 (rqMultSmall c f)) = modp q t := by
    rw [hcf3q, hcfq, hcq, ht, modp_sub, modp_mulMod, modp_smul, modp_mulMod, ← hk.encap]
    push_cast
    ring
  have hlift : ∀ i < p, rqMult3 (rqMultSmall c f) i = t i := fun i hi =>
    eq_of_cast_q (hcf3.abs_le_q12 hi) (decryption_noise hr hk.isSmall hk.isShort hm hi) (modp_inj hq i hi)
  obtain ⟨hsmall, hev⟩ := decrypted_isSmall hc hk.isShort.1 hk.ginvSmall
  have h3 : (3 : AdjoinRoot (modulus (ZMod 3) p)) = 0 := by
    have h := congrArg (AdjoinRoot.of (modulus (ZMod 3) p)) (show (3 : ZMod 3) = 0 from rfl)
    rwa [map_ofNat, map_zero] at h
  have hr3 : modp 3 (decrypted c f ginv) = modp 3 r := by
    rw [hev, modp_congr fun i hi => congrArg _ (hlift i hi), ht, modp_sub, modp_mulMod, modp_smul, Int.cast_ofNat, h3,
      zero_mul, sub_zero, mul_assoc, mul_comm (modp 3 g), hk.decap, mul_one]
  have heq : ∀ i < p, decrypted c f ginv i = r i := fun i hi =>
    eq_of_cast_three (hsmall.abs_le_one hi) (hr.1.abs_le_one hi) (modp_inj hr3 i hi)
  rw [decrypt_of_short hc hk.isShort.1 hk.ginvSmall ?_ hi, heq i hi]
  rw [← hr.2]
  exact Finset.sum_congr rfl fun i hi => by rw [heq i (Finset.mem_range.mp hi)]

end

end TkTox.Sntrup
