import TkTox.PackedDigits
import TkTox.SntrupRecip

/-!
`X ^ p - X - 1` is irreducible modulo `q`: it has no root, its degree is a prime, and the `p`-th power of
the Frobenius map fixes the class of `X`. So `Rq_recip3` fails on 0 only.
-/

open Polynomial CoeffArray Packed

namespace TkTox.Sntrup

def packedMul (A B : ℕ) : ℕ := reduceDigits 64 761 4591 12 239492839 28 (foldHigh 64 761 (A * B))

def packedFrobenius (A : ℕ) : ℕ :=
  let A2 := packedMul A A
  let A3 := packedMul A2 A
  let A6 := packedMul A3 A3
  let A12 := packedMul A6 A6
  let A15 := packedMul A12 A3
  let A30 := packedMul A15 A15
  let A60 := packedMul A30 A30
  let A120 := packedMul A60 A60
  let A240 := packedMul A120 A120
  let A255 := packedMul A240 A15
  let A510 := packedMul A255 A255
  let A1020 := packedMul A510 A510
  let A2040 := packedMul A1020 A1020
  let A4080 := packedMul A2040 A2040
  let A4590 := packedMul A4080 A510
  packedMul A4590 A

section

variable {A B : ℕ} {x y : AdjoinRoot (modulus (ZMod q) p)}

def PackedRep (A : ℕ) (x : AdjoinRoot (modulus (ZMod q) p)) : Prop := Rep 64 p 13773 A x

theorem reduce_estimate {t : ℕ} (ht : t ≤ 3 * (761 * (13773 * 13773))) :
    239492839 * (t >>> 12) < 2 ^ 64 ∧ 4591 * ((239492839 * (t >>> 12)) >>> 28) ≤ t ∧
      t - 4591 * ((239492839 * (t >>> 12)) >>> 28) ≤ 13773 := by
  simp only [Nat.shiftRight_eq_div_pow]
  omega

theorem PackedRep.mul (hA : PackedRep A x) (hB : PackedRep B y) : PackedRep (packedMul A B) (x * y) := by
  have hmul := Rep.mul (by decide) hA hB
  have hfold := hmul.foldHigh (by decide) (by decide)
  exact hfold.reduceDigits (ZMod.natCast_self q) (by decide) (by decide) (by decide) fun t ht => reduce_estimate ht

theorem PackedRep.mul_pow {i j k : ℕ} (hA : PackedRep A (x ^ i)) (hB : PackedRep B (x ^ j)) (hk : i + j = k) :
    PackedRep (packedMul A B) (x ^ k) := by
  rw [← hk, pow_add]
  exact hA.mul hB

theorem PackedRep.frobenius (hA : PackedRep A x) : PackedRep (packedFrobenius A) (x ^ q) := by
  have h1 : PackedRep A (x ^ 1) := by rwa [pow_one]
  have h2 : PackedRep _ (x ^ 2) := h1.mul_pow h1 rfl
  have h3 : PackedRep _ (x ^ 3) := h2.mul_pow h1 rfl
  have h6 : PackedRep _ (x ^ 6) := h3.mul_pow h3 rfl
  have h12 : PackedRep _ (x ^ 12) := h6.mul_pow h6 rfl
  have h15 : PackedRep _ (x ^ 15) := h12.mul_pow h3 rfl
  have h30 : PackedRep _ (x ^ 30) := h15.mul_pow h15 rfl
  have h60 : PackedRep _ (x ^ 60) := h30.mul_pow h30 rfl
  have h120 : PackedRep _ (x ^ 120) := h60.mul_pow h60 rfl
  have h240 : PackedRep _ (x ^ 240) := h120.mul_pow h120 rfl
  have h255 : PackedRep _ (x ^ 255) := h240.mul_pow h15 rfl
  have h510 : PackedRep _ (x ^ 510) := h255.mul_pow h255 rfl
  have h1020 : PackedRep _ (x ^ 1020) := h510.mul_pow h510 rfl
  have h2040 : PackedRep _ (x ^ 2040) := h1020.mul_pow h1020 rfl
  have h4080 : PackedRep _ (x ^ 4080) := h2040.mul_pow h2040 rfl
  have h4590 : PackedRep _ (x ^ 4590) := h4080.mul_pow h510 rfl
  exact h4590.mul_pow h1 (by decide)

end

def rootDigits : List ℕ := 0 :: 1 :: List.replicate 759 0

theorem ofDigits_rootDigits {S : Type*} [CommSemiring S] (x : S) : Nat.ofDigits x rootDigits = x := by
  have hzero : ∀ n, Nat.ofDigits x (List.replicate n 0) = 0 := by
    intro n
    induction n with
    | zero => rfl
    | succ n ih => rw [List.replicate_succ, ofDigits_some, ih, Nat.cast_zero, mul_zero, add_zero]
  rw [rootDigits, ofDigits_some, ofDigits_some, hzero, Nat.cast_zero, Nat.cast_one, mul_zero, add_zero, mul_one, zero_add]

theorem packed_root : PackedRep (2 ^ 64) (AdjoinRoot.root (modulus (ZMod q) p)) := by
  refine ⟨rootDigits, ?_, ?_, ofDigits_rootDigits _, by rw [ofDigits_rootDigits, AdjoinRoot.mk_X]⟩
  · rw [rootDigits, List.length_cons, List.length_cons, List.length_replicate]
    rfl
  · intro d hd
    simp only [rootDigits, List.mem_cons, List.mem_replicate] at hd
    omega

theorem frobenius_rounds : digitsAre 64 4591 rootDigits (rounds packedFrobenius 761 (2 ^ 64)) = true := by
  decide +kernel

theorem root_pow : AdjoinRoot.root (modulus (ZMod q) p) ^ q ^ p = AdjoinRoot.root (modulus (ZMod q) p) := by
  have hrep : PackedRep _ (AdjoinRoot.root (modulus (ZMod q) p) ^ q ^ p) :=
    Rep.rounds (fun _ _ h => PackedRep.frobenius h) packed_root p
  have hend := hrep.of_digitsAre (ZMod.natCast_self q) (by decide) frobenius_rounds
  rw [hend, ofDigits_rootDigits, AdjoinRoot.mk_X]

theorem no_root_nat : (List.range q).all fun a => a ^ p % q != (a + 1) % q := by
  decide +kernel

theorem modulus_no_root (a : ZMod q) : ¬ (modulus (ZMod q) p).IsRoot a := by
  intro h
  have hne := List.all_eq_true.mp no_root_nat a.val (List.mem_range.mpr (ZMod.val_lt a))
  have hpow := modulus_isRoot.mp h
  have hcast : ((a.val ^ p : ℕ) : ZMod q) = (a.val + 1 : ℕ) := by
    rw [Nat.cast_pow, Nat.cast_add, ZMod.natCast_zmod_val, hpow, Nat.cast_one]
  rw [ZMod.natCast_eq_natCast_iff'] at hcast
  exact bne_iff_ne.mp hne hcast

theorem modulus_irreducible : Irreducible (modulus (ZMod q) p) := by
  refine irreducible_of_frobenius (by rw [p]; norm_num) (modulus_natDegree (by decide)) modulus_no_root ?_
  rw [Nat.card_zmod]
  exact root_pow

theorem isUnit_modp_q {f : ℕ → ℤ} (hf : IsSmall f) : IsUnit (modp q f) ↔ ∃ i < p, f i ≠ 0 := by
  have hsmall : ∀ i < p, (f i : ZMod q) = 0 → f i = 0 := by
    intro i hi h0
    have hq12 : (q12 : ℤ) = 2295 := rfl
    have hle := hf.abs_le_one hi
    exact eq_of_cast_q (by omega) (by decide) (by rw [h0, Int.cast_zero])
  have : Fact (Irreducible (modulus (ZMod q) p)) := ⟨modulus_irreducible⟩
  have hzero : modp q (fun _ => 0) = 0 := by
    rw [modp, cls, poly, Finset.sum_eq_zero, map_zero]
    intro i _
    rw [Int.cast_zero, C_0, zero_mul]
  rw [isUnit_iff_ne_zero, ne_eq, not_iff_comm]
  push Not
  constructor
  · intro h
    rw [modp_congr fun i hi => congrArg _ (h i hi), hzero]
  · intro h i hi
    apply hsmall i hi
    rw [modp_inj (h.trans hzero.symm) i hi, Int.cast_zero]

theorem rqRecip3_ok {f : ℕ → ℤ} (hf : IsSmall f) (h0 : ∃ i < p, f i ≠ 0) :
    (rqRecip3 f).1 = 0 ∧ modp q (rqRecip3 f).2 * (3 * modp q f) = 1 := by
  obtain ⟨-, hiff, -, hinv⟩ := rqRecip3_eq hf
  have hret := hiff.mpr ((isUnit_modp_q hf).mpr h0)
  exact ⟨hret, hinv hret⟩

/-- `R3_recip` inverts the units of `R / 3` and refuses the rest; `Rq_recip3` inverts three times anything but 0. -/
theorem recip_exact {a : ℕ → ℤ} (ha : IsSmall a) :
    (IsSmall (r3Recip a).2 ∧ ((r3Recip a).1 = 0 ∨ (r3Recip a).1 = -1) ∧
      ((r3Recip a).1 = 0 ↔ IsUnit (modp 3 a)) ∧ ((r3Recip a).1 = 0 → modp 3 (r3Recip a).2 * modp 3 a = 1)) ∧
    IsFq (rqRecip3 a).2 ∧ ((rqRecip3 a).1 = 0 ∨ (rqRecip3 a).1 = -1) ∧
      ((rqRecip3 a).1 = 0 ↔ ∃ i < p, a i ≠ 0) ∧
      ((rqRecip3 a).1 = 0 → modp q (rqRecip3 a).2 * (3 * modp q a) = 1) := by
  obtain ⟨h1, h2, h3, h4⟩ := r3Recip_eq ha
  obtain ⟨h5, h6, h7, h8⟩ := rqRecip3_eq ha
  exact ⟨⟨h1, h3, h2, h4⟩, h5, h7, h6.trans (isUnit_modp_q ha), h8⟩

theorem x_isSmall : IsSmall fun i => if i = 1 then 1 else 0 := by
  intro i _
  dsimp only
  split <;> omega

theorem isUnit_modp_x (N : ℕ) : IsUnit (modp N fun i => if i = 1 then 1 else 0) := by
  have h := isUnit_cls_X (R := ZMod N) (n := p) (by decide)
  rwa [modp, cls_congr (b := fun i => if i = 1 then 1 else 0) fun i _ => by split_ifs <;> simp]

theorem recip_exact_x :
    (r3Recip fun i => if i = 1 then 1 else 0).1 = 0 ∧ (rqRecip3 fun i => if i = 1 then 1 else 0).1 = 0 :=
  ⟨(recip_exact x_isSmall).1.2.2.1.mpr (isUnit_modp_x 3), (recip_exact x_isSmall).2.2.2.1.mpr ⟨1, by decide, by decide⟩⟩

end TkTox.Sntrup
