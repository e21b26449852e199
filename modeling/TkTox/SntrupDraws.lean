import TkTox.SntrupCore
import TkTox.SntrupSort

/-!
The random polynomials of `sntrup761.c`: whatever bytes the source of randomness answers, `Short_random`
draws a short polynomial and `Small_random` a small one.
-/

namespace TkTox.Sntrup

def smallOf (x : BitVec 32) : ℤ := (x.setWidth 8).toInt

def shortFromlist (words : ℕ → BitVec 32) (i : ℕ) : ℤ :=
  let L := cryptoSortUint32 p fun i => if i < w then words i &&& -2 else (words i &&& -3) ||| 1
  smallOf ((L i &&& 3) - 1)

def urandom32 (c : Blob 4) : BitVec 32 :=
  let byte := fun i => BitVec.ofNat 32 (c.bytes.getD i 0).toNat
  byte 0 + byte 1 <<< 8 + byte 2 <<< 16 + byte 3 <<< 24

def shortRandom (random : ℕ → Blob 4) : ℕ → ℤ := shortFromlist fun i => urandom32 (random i)

def smallRandom (random : ℕ → Blob 4) (i : ℕ) : ℤ := smallOf ((((urandom32 (random i) &&& 0x3fffffff) * 3) >>> 30) - 1)

theorem and_neg_two (v : BitVec 32) : (v &&& -2) &&& 3 = 0 ∨ (v &&& -2) &&& 3 = 2 := by
  have h : v &&& 2 = if v.getLsbD 1 then 2#32 else 0#32 := BitVec.and_twoPow v 1
  rw [BitVec.and_assoc, show (-2 &&& 3 : BitVec 32) = 2 from rfl, h]
  split_ifs <;> simp

theorem and_neg_three (v : BitVec 32) : ((v &&& -3) ||| 1) &&& 3 = 1 := by
  have h : v &&& 1 = if v.getLsbD 0 then 1#32 else 0#32 := BitVec.and_twoPow v 0
  rw [BitVec.and_comm, BitVec.and_or_distrib_left, ← BitVec.and_assoc, BitVec.and_comm 3 v, BitVec.and_assoc,
    show (3 &&& -3 : BitVec 32) = 1 from rfl, h]
  split_ifs <;> rfl

-- the low bits of a marked word give the coefficient, wherever the sort puts the word
theorem marked_coeff (words : ℕ → BitVec 32) (i : ℕ) :
    |smallOf (((if i < w then words i &&& -2 else (words i &&& -3) ||| 1) &&& 3) - 1)| = if i < w then 1 else 0 := by
  split_ifs
  · obtain h | h := and_neg_two (words i) <;> rw [h] <;> rfl
  · rw [and_neg_three]
    rfl

theorem shortFromlist_isShort (words : ℕ → BitVec 32) : IsShort (shortFromlist words) := by
  have hsort := cryptoSortUint32_rearranged p fun i => if i < w then words i &&& -2 else (words i &&& -3) ||| 1
  refine ⟨fun i hi => ?_, ?_⟩
  · obtain ⟨j, -, hj⟩ := hsort.exists_eq hi
    have h := marked_coeff words j
    rw [← abs_le, shortFromlist, hj, h]
    split_ifs <;> decide
  · have hsum := hsort.sum_eq fun v => |smallOf ((v &&& 3) - 1)|
    have hcount := first_isShort.2
    rw [← hcount]
    refine hsum.trans (Finset.sum_congr rfl fun i _ => ?_)
    rw [marked_coeff]
    dsimp only
    split_ifs
    · exact abs_one.symm
    · exact abs_zero.symm

theorem smallRandom_isSmall (random : ℕ → Blob 4) : IsSmall (smallRandom random) := by
  intro i _
  set v := urandom32 (random i) &&& 0x3fffffff with hv
  have hle : v.toNat < 2 ^ 30 := by
    rw [hv, BitVec.toNat_and]
    exact Nat.and_lt_two_pow _ (by decide)
  have hcases : (v * 3) >>> 30 = 0 ∨ (v * 3) >>> 30 = 1 ∨ (v * 3) >>> 30 = 2 := by
    have h3 : ((v * 3) >>> 30).toNat = v.toNat * 3 / 2 ^ 30 := by
      rw [BitVec.toNat_ushiftRight, BitVec.toNat_mul, Nat.shiftRight_eq_div_pow]
      congr 1
      exact Nat.mod_eq_of_lt (by simp; omega)
    simp only [BitVec.toNat_eq, h3]
    simp
    omega
  rw [smallRandom]
  obtain h | h | h := hcases <;> rw [← hv, h] <;> decide

end TkTox.Sntrup
