import Mathlib.Data.Int.ModEq
import Mathlib.Tactic.Common
import Mathlib.Tactic.Linarith
import Mathlib.Tactic.LinearCombination
import Mathlib.Tactic.Ring

/-!
The word arithmetic of `sntrup761.c`: division by a constant of 14 bits without a division
instruction, the masks, and the representatives modulo 3 and modulo `q`. Unsigned words are naturals
that are cut to their width after every operation, signed ones are integers.
-/

namespace TkTox.Sntrup

def p : ℕ := 761
def q : ℕ := 4591
def w : ℕ := 286
def q12 : ℕ := (q - 1) / 2

def uint16 (x : ℤ) : ℕ := (x % 2 ^ 16).toNat

def uint32 (x : ℤ) : ℕ := (x % 2 ^ 32).toNat

def int16 (x : ℤ) : ℤ := (x + 2 ^ 15) % 2 ^ 16 - 2 ^ 15

def int32 (x : ℤ) : ℤ := (x + 2 ^ 31) % 2 ^ 32 - 2 ^ 31

def sub32 (a b : ℕ) : ℕ := (a + (2 ^ 32 - b % 2 ^ 32)) % 2 ^ 32

def neg32 (a : ℕ) : ℕ := sub32 0 a

theorem int16_eq {x : ℤ} (h : -2 ^ 15 ≤ x) (h' : x < 2 ^ 15) : int16 x = x := by
  unfold int16
  omega

theorem int32_eq {x : ℤ} (h : -2 ^ 31 ≤ x) (h' : x < 2 ^ 31) : int32 x = x := by
  unfold int32
  omega

theorem sub32_eq {a b : ℕ} (h : b ≤ a) (ha : a < 2 ^ 32) : sub32 a b = a - b := by
  unfold sub32
  omega

def uint32DivmodUint14 (x m : ℕ) : ℕ × ℕ :=
  let v := 0x80000000 / m
  let qpart := ((x * v) >>> 31) % 2 ^ 32
  let x := sub32 x (qpart * m)
  let quot := qpart
  let qpart := ((x * v) >>> 31) % 2 ^ 32
  let x := sub32 x (qpart * m)
  let quot := (quot + qpart) % 2 ^ 32
  let x := sub32 x m
  let quot := (quot + 1) % 2 ^ 32
  let mask := neg32 (x >>> 31)
  let x := (x + (mask &&& m)) % 2 ^ 32
  let quot := (quot + mask) % 2 ^ 32
  (quot, x % 2 ^ 16)

def uint32ModUint14 (x m : ℕ) : ℕ := (uint32DivmodUint14 x m).2

def int32DivmodUint14 (x : ℤ) (m : ℕ) : ℤ × ℕ :=
  let u := uint32DivmodUint14 ((0x80000000 + uint32 x) % 2 ^ 32 : ℕ) m
  let u2 := uint32DivmodUint14 0x80000000 m
  let ur : ℕ := uint16 ((u.2 : ℤ) - u2.2)
  let uq := sub32 u.1 u2.1
  let mask := neg32 (ur >>> 15)
  let ur := (ur + (mask &&& m)) % 2 ^ 16
  let uq : ℕ := (uq + mask) % 2 ^ 32
  (int32 uq, ur)

def int32ModUint14 (x : ℤ) (m : ℕ) : ℕ := (int32DivmodUint14 x m).2

section

variable {x m v : ℕ}

-- one round of the division leaves a multiple of `m` less
theorem qpart_le (hv : v * m ≤ 2 ^ 31) (x : ℕ) : ((x * v) >>> 31) * m ≤ x := by
  rw [Nat.shiftRight_eq_div_pow]
  have h1 : x * v / 2 ^ 31 * 2 ^ 31 ≤ x * v := Nat.div_mul_le_self _ _
  have h2 : x * v / 2 ^ 31 * m * 2 ^ 31 ≤ x * 2 ^ 31 := by
    calc x * v / 2 ^ 31 * m * 2 ^ 31 = x * v / 2 ^ 31 * 2 ^ 31 * m := by ring
      _ ≤ x * v * m := Nat.mul_le_mul_right m h1
      _ = x * (v * m) := by ring
      _ ≤ x * 2 ^ 31 := Nat.mul_le_mul_left x hv
  exact Nat.le_of_mul_le_mul_right h2 (by decide)

theorem rest_lt (hv : 2 ^ 31 < v * m + m) (hm : 0 < m) (x : ℕ) :
    2 ^ 31 * (x - ((x * v) >>> 31) * m) < 2 ^ 31 * m + x * m := by
  rw [Nat.shiftRight_eq_div_pow]
  have h1 : x * v < (x * v / 2 ^ 31 + 1) * 2 ^ 31 := Nat.lt_mul_of_div_lt (Nat.lt_succ_self _) (by decide)
  have h2 : 2 ^ 31 * x ≤ x * v * m + x * m := by nlinarith
  have h3 : x * v * m + x * m < 2 ^ 31 * (x * v / 2 ^ 31 * m) + 2 ^ 31 * m + x * m := by nlinarith
  have h4 : 2 ^ 31 * (x - x * v / 2 ^ 31 * m) = 2 ^ 31 * x - 2 ^ 31 * (x * v / 2 ^ 31 * m) := Nat.mul_sub _ _ _
  omega

theorem ones_and (hm : m < 2 ^ 32) : (2 ^ 32 - 1) &&& m = m := by
  rw [Nat.and_comm, Nat.and_two_pow_sub_one_eq_mod, Nat.mod_eq_of_lt hm]

theorem uint32DivmodUint14_eq (hx : x < 2 ^ 32) (hm : 0 < m) (hm' : m < 2 ^ 14) :
    uint32DivmodUint14 x m = (x / m, x % m) := by
  have hdiv := Nat.div_add_mod 0x80000000 m
  have hmod := Nat.mod_lt 0x80000000 hm
  set v := 0x80000000 / m with hv
  have hv1 : v * m ≤ 2 ^ 31 := by
    rw [mul_comm]
    omega
  have hv2 : 2 ^ 31 < v * m + m := by
    rw [mul_comm v]
    omega
  have hle := qpart_le hv1 x
  have hlt := rest_lt hv2 hm x
  set a := (x * v) >>> 31 with ha
  have ha' : a ≤ a * m := Nat.le_mul_of_pos_right a hm
  set x1 := x - a * m with hx1
  have hx1' : x1 < 2 ^ 16 := by nlinarith
  have hle2 := qpart_le hv1 x1
  have hlt2 := rest_lt hv2 hm x1
  set b := (x1 * v) >>> 31 with hb
  have hb' : b ≤ b * m := Nat.le_mul_of_pos_right b hm
  set x2 := x1 - b * m with hx2
  have hx2' : x2 ≤ m := by nlinarith
  have hsum : x = (a + b) * m + x2 := by
    rw [add_mul]
    omega
  have hqa : a % 2 ^ 32 = a := Nat.mod_eq_of_lt (by omega)
  have hqb : b % 2 ^ 32 = b := Nat.mod_eq_of_lt (by omega)
  have hab : (a + b) % 2 ^ 32 = a + b := Nat.mod_eq_of_lt (by nlinarith)
  have hs1 : sub32 x (a * m) = x1 := sub32_eq hle hx
  have hs2 : sub32 x1 (b * m) = x2 := sub32_eq hle2 (by omega)
  simp only [uint32DivmodUint14, ← hv, ← ha, hqa, hs1, ← hb, hqb, hs2, hab]
  obtain hlt | heq := lt_or_eq_of_le hx2'
  · -- the last subtraction is taken back
    have hq : x / m = a + b := by
      rw [hsum, add_comm, Nat.add_mul_div_right _ _ hm, Nat.div_eq_of_lt hlt, zero_add]
    have hr : x % m = x2 := by
      rw [hsum, add_comm, Nat.add_mul_mod_self_right, Nat.mod_eq_of_lt hlt]
    have hs3 : sub32 x2 m = 2 ^ 32 - (m - x2) := by
      unfold sub32
      omega
    have hmask : neg32 (sub32 x2 m >>> 31) = 2 ^ 32 - 1 := by
      rw [hs3, Nat.shiftRight_eq_div_pow]
      unfold neg32 sub32
      omega
    rw [hmask, ones_and (by omega), hs3, hq, hr, Prod.mk.injEq]
    omega
  · have hq : x / m = a + b + 1 := by
      rw [hsum, heq, ← Nat.succ_mul, Nat.mul_div_cancel _ hm]
    have hr : x % m = 0 := by
      rw [hsum, heq, ← Nat.succ_mul, Nat.mul_mod_left]
    have hs3 : sub32 x2 m = 0 := by
      unfold sub32
      omega
    have hle' : a + b + 1 ≤ x := by
      rw [← hq]
      exact Nat.div_le_self x m
    rw [hs3, hq, hr]
    have hmask : neg32 (0 >>> 31) = 0 := by decide
    rw [hmask, Nat.zero_and, Prod.mk.injEq]
    omega

theorem int32DivmodUint14_of {x k : ℤ} {r : ℕ} (hx : -2 ^ 31 ≤ x) (hx' : x < 2 ^ 31) (hm : 0 < m)
    (hxk : x = m * k + r) (hr : r < m) : x / m = k ∧ (x % m).toNat = r ∧ -2 ^ 31 ≤ k ∧ k < 2 ^ 31 := by
  have hm' : (0 : ℤ) < m := by exact_mod_cast hm
  have hr' : (r : ℤ) < m := by exact_mod_cast hr
  have hr0 : (0 : ℤ) ≤ r := Int.natCast_nonneg r
  have hdiv : x / m = k := by
    rw [hxk, add_comm, Int.add_mul_ediv_left _ _ hm'.ne', Int.ediv_eq_zero_of_lt hr0 hr', zero_add]
  have hmod : x % m = r := by
    rw [hxk, add_comm, Int.add_mul_emod_self_left, Int.emod_eq_of_lt hr0 hr']
  refine ⟨hdiv, by rw [hmod, Int.toNat_natCast], ?_, ?_⟩
  · by_contra hk
    nlinarith
  · by_contra hk
    nlinarith

theorem int32DivmodUint14_eq {x : ℤ} (hx : -2 ^ 31 ≤ x) (hx' : x < 2 ^ 31) (hm : 0 < m)
    (hm' : m < 2 ^ 14) : int32DivmodUint14 x m = (x / m, (x % m).toNat) := by
  have hu : (((0x80000000 + uint32 x) % 2 ^ 32 : ℕ) : ℤ) = x + 2 ^ 31 := by
    unfold uint32
    omega
  set y := (0x80000000 + uint32 x) % 2 ^ 32 with hy
  have hy' : y < 2 ^ 32 := Nat.mod_lt _ (by decide)
  have e1 := uint32DivmodUint14_eq hy' hm hm'
  have e2 := uint32DivmodUint14_eq (x := 0x80000000) (by decide) hm hm'
  have d1 := Nat.div_add_mod y m
  have d2 := Nat.div_add_mod 0x80000000 m
  have r1 := Nat.mod_lt y hm
  have r2 := Nat.mod_lt 0x80000000 hm
  have q1 : y / m < 2 ^ 32 := (Nat.div_le_self y m).trans_lt hy'
  have q2 : 0x80000000 / m < 2 ^ 32 := (Nat.div_le_self _ m).trans_lt (by decide)
  set a := y / m
  set b := 0x80000000 / m
  set ra := y % m
  set rb := 0x80000000 % m
  have hx0 : x = m * ((a : ℤ) - b) + ((ra : ℤ) - rb) := by
    have d1' : (y : ℤ) = m * a + ra := by exact_mod_cast d1.symm
    have d2' : (2 ^ 31 : ℤ) = m * b + rb := by exact_mod_cast d2.symm
    linear_combination d1' - d2' - hu
  have hres : int32DivmodUint14 x m =
      (int32 ((sub32 a b + neg32 (uint16 ((ra : ℤ) - rb) >>> 15)) % 2 ^ 32 : ℕ),
        (uint16 ((ra : ℤ) - rb) + (neg32 (uint16 ((ra : ℤ) - rb) >>> 15) &&& m)) % 2 ^ 16) := by
    simp only [int32DivmodUint14, ← hy, e1, e2]
  rw [hres]
  obtain hlt | hge := lt_or_ge ra rb
  · -- the rest is negative: one more `m` and one less in the quotient
    obtain ⟨h1, h2, h3, h4⟩ := int32DivmodUint14_of (k := (a : ℤ) - b - 1) (r := ra + m - rb) hx hx' hm
      (by rw [hx0]; push_cast [show rb ≤ ra + m by omega]; ring) (by omega)
    have hur : uint16 ((ra : ℤ) - rb) = 2 ^ 16 - (rb - ra) := by
      unfold uint16
      omega
    have hmask : neg32 ((2 ^ 16 - (rb - ra)) >>> 15) = 2 ^ 32 - 1 := by
      rw [Nat.shiftRight_eq_div_pow]
      unfold neg32 sub32
      omega
    rw [hur, hmask, ones_and (by omega), h1, h2, Prod.mk.injEq]
    constructor
    · unfold sub32 int32
      omega
    · omega
  · obtain ⟨h1, h2, h3, h4⟩ := int32DivmodUint14_of (k := (a : ℤ) - b) (r := ra - rb) hx hx' hm
      (by rw [hx0]; push_cast [hge]; ring) (by omega)
    have hur : uint16 ((ra : ℤ) - rb) = ra - rb := by
      unfold uint16
      omega
    have hmask : neg32 ((ra - rb) >>> 15) = 0 := by
      rw [Nat.shiftRight_eq_div_pow]
      unfold neg32 sub32
      omega
    rw [hur, hmask, Nat.zero_and, h1, h2, Prod.mk.injEq]
    constructor
    · unfold sub32 int32
      omega
    · omega

/-- The divisions are exact on all of their words. -/
theorem divmod_exact {n : ℕ} {x : ℤ} (hn : n < 2 ^ 32) (hx : -2 ^ 31 ≤ x) (hx' : x < 2 ^ 31) (hm : 0 < m)
    (hm' : m < 2 ^ 14) : uint32DivmodUint14 n m = (n / m, n % m) ∧
      int32DivmodUint14 x m = (x / m, (x % m).toNat) :=
  ⟨uint32DivmodUint14_eq hn hm hm', int32DivmodUint14_eq hx hx' hm hm'⟩

end

theorem divmod_exact_q : uint32DivmodUint14 4294967295 4591 = (4294967295 / 4591, 4294967295 % 4591) ∧
    int32DivmodUint14 (-2147483648) 4591 = (-2147483648 / 4591, (-2147483648 % 4591 : ℤ).toNat) :=
  divmod_exact (n := 4294967295) (x := -2147483648) (m := 4591) (by decide) (by decide) (by decide) (by decide)
    (by decide)

def int16NonzeroMask (x : ℤ) : ℤ :=
  let u := uint16 x
  let v := neg32 u
  let v := v >>> 31
  int32 (neg32 v)

def int16NegativeMask (x : ℤ) : ℤ := -(uint16 x >>> 15 : ℕ)

section

variable {x : ℤ} (h : -2 ^ 15 ≤ x) (h' : x < 2 ^ 15)

include h h'

theorem int16NonzeroMask_eq : int16NonzeroMask x = if x = 0 then 0 else -1 := by
  unfold int16NonzeroMask
  simp only [Nat.shiftRight_eq_div_pow]
  unfold neg32 sub32 uint16 int32
  split_ifs <;> omega

theorem int16NegativeMask_eq : int16NegativeMask x = if x < 0 then -1 else 0 := by
  unfold int16NegativeMask
  rw [Nat.shiftRight_eq_div_pow]
  unfold uint16
  split_ifs <;> omega

end

def and32 (x y : ℤ) : ℤ := (BitVec.ofInt 32 x &&& BitVec.ofInt 32 y).toInt

def xor32 (x y : ℤ) : ℤ := (BitVec.ofInt 32 x ^^^ BitVec.ofInt 32 y).toInt

def not32 (x : ℤ) : ℤ := (~~~BitVec.ofInt 32 x).toInt

theorem ofInt_toInt {x : ℤ} (h : -2 ^ 31 ≤ x) (h' : x < 2 ^ 31) : (BitVec.ofInt 32 x).toInt = x := by
  rw [BitVec.toInt_ofInt]
  exact Int.bmod_eq_of_le (by omega) (by omega)

theorem and32_zero (x : ℤ) : and32 0 x = 0 := by
  rw [and32, show BitVec.ofInt 32 0 = 0#32 from rfl, BitVec.zero_and]
  rfl

theorem and32_ones {x : ℤ} (h : -2 ^ 31 ≤ x) (h' : x < 2 ^ 31) : and32 (-1) x = x := by
  rw [and32, show BitVec.ofInt 32 (-1) = BitVec.allOnes 32 by decide, BitVec.allOnes_and, ofInt_toInt h h']

theorem xor32_zero {x : ℤ} (h : -2 ^ 31 ≤ x) (h' : x < 2 ^ 31) : xor32 x 0 = x := by
  rw [xor32, show BitVec.ofInt 32 0 = 0#32 from rfl, BitVec.xor_zero, ofInt_toInt h h']

theorem xor32_xor32 {x y : ℤ} (h : -2 ^ 31 ≤ y) (h' : y < 2 ^ 31) : xor32 x (xor32 x y) = y := by
  rw [xor32, xor32, BitVec.ofInt_toInt, ← BitVec.xor_assoc, BitVec.xor_self, BitVec.zero_xor, ofInt_toInt h h']

theorem xor32_comm (x y : ℤ) : xor32 x y = xor32 y x := by
  rw [xor32, BitVec.xor_comm, xor32]

theorem xor32_range (x y : ℤ) : -2 ^ 31 ≤ xor32 x y ∧ xor32 x y < 2 ^ 31 :=
  ⟨BitVec.le_toInt _, BitVec.toInt_lt⟩

def condSwap (swap x y : ℤ) : ℤ × ℤ :=
  let t := and32 swap (xor32 x y)
  (xor32 x t, xor32 y t)

section

variable {x y : ℤ} (hx : -2 ^ 31 ≤ x) (hx' : x < 2 ^ 31) (hy : -2 ^ 31 ≤ y) (hy' : y < 2 ^ 31)

include hx hx' hy hy'

theorem condSwap_zero : condSwap 0 x y = (x, y) := by
  rw [condSwap, and32_zero, xor32_zero hx hx', xor32_zero hy hy']

theorem condSwap_ones : condSwap (-1) x y = (y, x) := by
  obtain ⟨h, h'⟩ := xor32_range x y
  rw [condSwap, and32_ones h h', xor32_xor32 hy hy', xor32_comm x y, xor32_xor32 hx hx']

end

def f3Freeze (x : ℤ) : ℤ := int32ModUint14 (int16 x + 1) 3 - 1

def fqFreeze (x : ℤ) : ℤ := int32ModUint14 (x + q12) q - q12

theorem f3Freeze_eq {x : ℤ} (h : -2 ^ 15 ≤ x) (h' : x < 2 ^ 15) : f3Freeze x = (x + 1) % 3 - 1 := by
  rw [f3Freeze, int16_eq h h', int32ModUint14, int32DivmodUint14_eq (by omega) (by omega) (by decide) (by decide)]
  omega

theorem fqFreeze_eq {x : ℤ} (h : -2 ^ 31 ≤ x + q12) (h' : x + q12 < 2 ^ 31) :
    fqFreeze x = (x + q12) % q - q12 := by
  rw [fqFreeze, int32ModUint14, int32DivmodUint14_eq h h' (by decide) (by decide)]
  have : (0 : ℤ) ≤ (x + q12) % q := Int.emod_nonneg _ (by decide)
  omega

end TkTox.Sntrup
