import Mathlib.Algebra.BigOperators.Group.Finset.Basic
import Mathlib.Data.BitVec
import Mathlib.Tactic

/-!
The constant-time sort of `sntrup761.c`, a merge exchange network over `int32_MINMAX`. Whatever the length
of the array, it moves entries and nothing else.
-/

namespace TkTox.Sntrup

def Rearranged {α : Type*} (n : ℕ) (x y : ℕ → α) : Prop :=
  ∃ σ : Equiv.Perm ℕ, (∀ i, σ i < n ↔ i < n) ∧ (∀ i, n ≤ i → σ i = i) ∧ ∀ i, y i = x (σ i)

section

variable {α : Type*} {n : ℕ} {x y z : ℕ → α}

theorem Rearranged.refl (n : ℕ) (x : ℕ → α) : Rearranged n x x :=
  ⟨1, fun _ => Iff.rfl, fun _ _ => rfl, fun _ => rfl⟩

theorem Rearranged.trans (hxy : Rearranged n x y) (hyz : Rearranged n y z) : Rearranged n x z := by
  obtain ⟨σ, hσ, hσ', hy⟩ := hxy
  obtain ⟨τ, hτ, hτ', hz⟩ := hyz
  refine ⟨τ.trans σ, fun i => (hσ (τ i)).trans (hτ i), fun i hi => ?_, fun i => ?_⟩
  · rw [Equiv.trans_apply, hτ' i hi, hσ' i hi]
  · rw [hz, hy, Equiv.trans_apply]

theorem Rearranged.swap {i j : ℕ} (hi : i < n) (hj : j < n) (x : ℕ → α) :
    Rearranged n x (Function.update (Function.update x i (x j)) j (x i)) := by
  refine ⟨Equiv.swap i j, fun k => ?_, fun k hk => ?_, fun k => ?_⟩
  · rw [Equiv.swap_apply_def]
    split_ifs <;> omega
  · exact Equiv.swap_apply_of_ne_of_ne (by omega) (by omega)
  · rw [Function.update_apply, Function.update_apply, Equiv.swap_apply_def]
    split_ifs <;> simp_all

theorem Rearranged.foldl {β : Type*} {f : (ℕ → α) → β → ℕ → α} {l : List β}
    (hf : ∀ b ∈ l, ∀ x, Rearranged n x (f x b)) (x : ℕ → α) : Rearranged n x (l.foldl f x) := by
  induction l generalizing x with
  | nil => exact .refl n x
  | cons b l ih => exact (hf b (by simp) x).trans (ih (fun b hb => hf b (by simp [hb])) _)

theorem Rearranged.exists_eq (h : Rearranged n x y) {i : ℕ} (hi : i < n) : ∃ j < n, y i = x j := by
  obtain ⟨σ, hσ, -, hy⟩ := h
  exact ⟨σ i, (hσ i).mpr hi, hy i⟩

theorem Rearranged.sum_eq {M : Type*} [AddCommMonoid M] (h : Rearranged n x y) (f : α → M) :
    ∑ i ∈ Finset.range n, f (y i) = ∑ i ∈ Finset.range n, f (x i) := by
  obtain ⟨σ, hσ, -, hy⟩ := h
  apply Finset.sum_equiv σ
  · intro i
    rw [Finset.mem_range, Finset.mem_range, hσ]
  · intro i _
    rw [hy]

theorem Rearranged.conj {f : α → α} (hf : Function.Involutive f)
    (h : Rearranged n (fun i => if i < n then f (x i) else x i) y) :
    Rearranged n x fun i => if i < n then f (y i) else y i := by
  obtain ⟨σ, hσ, hσ', hy⟩ := h
  refine ⟨σ, hσ, hσ', fun i => ?_⟩
  simp only [hy, hσ]
  split_ifs
  · exact hf _
  · rfl

end

def int32Minmax (a b : BitVec 32) : BitVec 32 × BitVec 32 :=
  let ab := b.signExtend 64 ^^^ a.signExtend 64
  let c := b.signExtend 64 - a.signExtend 64
  let c := c ^^^ (ab &&& (c ^^^ b.signExtend 64))
  let c := c.sshiftRight 31
  let c := c &&& ab
  (a ^^^ c.setWidth 32, b ^^^ c.setWidth 32)

theorem sshiftRight_31 {x : BitVec 64} (h : -2 ^ 31 ≤ x.toInt) (h' : x.toInt < 2 ^ 31) :
    x.sshiftRight 31 = if x.toInt < 0 then BitVec.allOnes 64 else 0#64 := by
  apply BitVec.eq_of_toInt_eq
  rw [BitVec.toInt_sshiftRight, Int.shiftRight_eq_div_pow]
  split_ifs
  · have hm : (BitVec.allOnes 64).toInt = -1 := by decide
    omega
  · have hz : (0#64).toInt = 0 := rfl
    omega

theorem signExtend_toInt (a : BitVec 32) : (a.signExtend 64).toInt = a.toInt :=
  BitVec.toInt_signExtend_of_le (by decide)

theorem signExtend_setWidth (a : BitVec 32) : (a.signExtend 64).setWidth 32 = a := by
  ext i hi
  rw [BitVec.getElem_setWidth, BitVec.getLsbD_signExtend, if_pos hi, decide_eq_true (by omega), Bool.true_and]
  exact BitVec.getLsbD_eq_getElem hi

theorem signExtend_sshiftRight (a : BitVec 32) :
    (a.signExtend 64).sshiftRight 31 = if a.toInt < 0 then BitVec.allOnes 64 else 0#64 := by
  have hlow := a.le_toInt
  have hhigh := a.toInt_lt
  rw [sshiftRight_31 (by rw [signExtend_toInt]; omega) (by rw [signExtend_toInt]; omega), signExtend_toInt]

-- the bits of `c` from 31 on are the sign of `b - a` if `a` and `b` have one sign, else the sign of `b`
theorem int32Minmax_eq (a b : BitVec 32) : int32Minmax a b = if b.toInt < a.toInt then (b, a) else (a, b) := by
  have hsel : ((b.signExtend 64 - a.signExtend 64) ^^^ ((b.signExtend 64 ^^^ a.signExtend 64) &&&
      ((b.signExtend 64 - a.signExtend 64) ^^^ b.signExtend 64))).sshiftRight 31 =
        if b.toInt < a.toInt then BitVec.allOnes 64 else 0#64 := by
    have ha := signExtend_sshiftRight a
    have hb := signExtend_sshiftRight b
    have hlow := a.le_toInt
    have hhigh := a.toInt_lt
    have hlow' := b.le_toInt
    have hhigh' := b.toInt_lt
    have hsub : (b.signExtend 64 - a.signExtend 64).toInt = b.toInt - a.toInt := by
      rw [BitVec.toInt_sub, signExtend_toInt, signExtend_toInt]
      exact Int.bmod_eq_of_le (by omega) (by omega)
    rw [BitVec.sshiftRight_xor_distrib, BitVec.sshiftRight_and_distrib, BitVec.sshiftRight_xor_distrib,
      BitVec.sshiftRight_xor_distrib, ha, hb]
    by_cases hsign : a.toInt < 0 ↔ b.toInt < 0
    · rw [if_congr hsign rfl rfl, BitVec.xor_self, BitVec.zero_and, BitVec.xor_zero,
        sshiftRight_31 (by rw [hsub]; omega) (by rw [hsub]; omega), hsub]
      exact if_congr (by omega) rfl rfl
    · by_cases hneg : b.toInt < 0
      · rw [if_pos hneg, if_neg (by tauto), if_pos (by omega), BitVec.xor_zero, BitVec.allOnes_and, ← BitVec.xor_assoc,
          BitVec.xor_self, BitVec.zero_xor]
      · rw [if_neg hneg, if_pos (by tauto), if_neg (by omega), BitVec.zero_xor, BitVec.allOnes_and, BitVec.xor_zero,
          BitVec.xor_self]
  have hab : (b.signExtend 64 ^^^ a.signExtend 64).setWidth 32 = b ^^^ a := by
    rw [BitVec.setWidth_xor, signExtend_setWidth, signExtend_setWidth]
  dsimp only [int32Minmax]
  rw [hsel]
  split_ifs
  · rw [BitVec.allOnes_and, hab, ← BitVec.xor_assoc, BitVec.xor_comm a, BitVec.xor_assoc, BitVec.xor_self,
      BitVec.xor_zero, ← BitVec.xor_assoc, BitVec.xor_self, BitVec.zero_xor]
  · simp

section

variable {σ : Type*}

-- `for (j = i; j < m; ++j)`
def forLoop (i m : ℕ) (body : ℕ → σ → σ) (x : σ) : σ := (List.range' i (m - i)).foldl (fun x j => body j x) x

-- `while (i + s <= m) { ...; i += 2 * p; }`, where `p` is never 0
def whileBlocks (p s m : ℕ) (body : ℕ → σ → σ) (i : ℕ) (x : σ) : ℕ × σ :=
  if 0 < p ∧ i + s ≤ m then whileBlocks p s m body (i + 2 * p) (body i x) else (i, x)
termination_by m + 1 - i

end

def halvings (q p : ℕ) : List ℕ := if p < q then q :: halvings (q / 2) p else []
termination_by q

def topPower (n top : ℕ) : ℕ := if 0 < top ∧ top < n - top then topPower n (top + top) else top
termination_by n - top

def minmaxAt (i j : ℕ) (x : ℕ → BitVec 32) : ℕ → BitVec 32 :=
  let ab := int32Minmax (x i) (x j)
  Function.update (Function.update x i ab.1) j ab.2

-- the body of the loops over `j` that compare `x[j + p]` with all the `x[j + r]`
def mergeAt (p q j : ℕ) (x : ℕ → BitVec 32) : ℕ → BitVec 32 :=
  let ax := (halvings q p).foldl (fun ax r =>
    let ab := int32Minmax ax.1 (ax.2 (j + r))
    (ab.1, Function.update ax.2 (j + r) ab.2)) (x (j + p), x)
  Function.update ax.2 (j + p) ax.1

-- the `for (;;)`, `m` rounds before `j` reaches `i + p`; `true` at `goto done`
def finishBlock (n p q i : ℕ) : ℕ → (ℕ → BitVec 32) → Bool × ℕ × ℕ × (ℕ → BitVec 32)
  | 0, x => (false, i + 2 * p, i + p, x)
  | m + 1, x =>
    let j := i + p - (m + 1)
    if j = n - q then (true, i, j, x) else finishBlock n p q i m (mergeAt p q j x)

def resumeBlock (n p q : ℕ) (s : ℕ × ℕ × (ℕ → BitVec 32)) : Bool × ℕ × ℕ × (ℕ → BitVec 32) :=
  if s.2.1 ≠ s.1 then finishBlock n p q s.1 (s.1 + p - s.2.1) s.2.2 else (false, s)

-- one round of `for (q = top; q > p; q >>= 1)` on `(i, j, x)`; `q < n`, so the C's `n - q` is not negative
def mergeRound (n p : ℕ) (s : ℕ × ℕ × (ℕ → BitVec 32)) (q : ℕ) : ℕ × ℕ × (ℕ → BitVec 32) :=
  let r := resumeBlock n p q s
  if r.1 then r.2
  else
    let ix := whileBlocks p p (n - q) (fun i => forLoop i (i + p) (mergeAt p q)) r.2.1 r.2.2.2
    (ix.1, max ix.1 (n - q), forLoop ix.1 (n - q) (mergeAt p q) ix.2)

def sortRound (n top : ℕ) (x : ℕ → BitVec 32) (p : ℕ) : ℕ → BitVec 32 :=
  let ix := whileBlocks p (2 * p) n (fun i => forLoop i (i + p) fun j => minmaxAt j (j + p)) 0 x
  let x := forLoop ix.1 (n - p) (fun j => minmaxAt j (j + p)) ix.2
  ((halvings top p).foldl (mergeRound n p) (0, 0, x)).2.2

def cryptoSortInt32 (n : ℕ) (x : ℕ → BitVec 32) : ℕ → BitVec 32 :=
  if n < 2 then x else (halvings (topPower n 1) 0).foldl (sortRound n (topPower n 1)) x

def cryptoSortUint32 (n : ℕ) (x : ℕ → BitVec 32) : ℕ → BitVec 32 :=
  let y := cryptoSortInt32 n fun j => if j < n then x j ^^^ 0x80000000 else x j
  fun j => if j < n then y j ^^^ 0x80000000 else y j

section

variable {n p q i j m top : ℕ} {x : ℕ → BitVec 32}

theorem forLoop_rearranged {body : ℕ → (ℕ → BitVec 32) → ℕ → BitVec 32}
    (h : ∀ j, i ≤ j → j < m → ∀ x, Rearranged n x (body j x)) (x : ℕ → BitVec 32) :
    Rearranged n x (forLoop i m body x) := by
  apply Rearranged.foldl
  intro j hj
  rw [List.mem_range'_1] at hj
  exact h j hj.1 (by omega)

theorem whileBlocks_rearranged {s : ℕ} {body : ℕ → (ℕ → BitVec 32) → ℕ → BitVec 32}
    (h : ∀ i, i + s ≤ m → ∀ x, Rearranged n x (body i x)) (i : ℕ) (x : ℕ → BitVec 32) :
    Rearranged n x (whileBlocks p s m body i x).2 := by
  induction i, x using whileBlocks.induct p s m body with
  | case1 i x hi ih =>
    rw [whileBlocks, if_pos hi]
    exact (h i hi.2 x).trans ih
  | case2 i x hi =>
    rw [whileBlocks, if_neg hi]
    exact .refl n x

theorem whileBlocks_stop {σ : Type*} {s : ℕ} (hp : 0 < p) (i : ℕ) (x : σ) (body : ℕ → σ → σ) :
    m < (whileBlocks p s m body i x).1 + s := by
  induction i, x using whileBlocks.induct p s m body with
  | case1 i x hi ih =>
    rw [whileBlocks, if_pos hi]
    exact ih
  | case2 i x hi =>
    rw [whileBlocks, if_neg hi]
    omega

theorem mem_halvings {r : ℕ} (h : r ∈ halvings q p) : p < r ∧ r ≤ q := by
  induction q using halvings.induct p with
  | case1 q hq ih =>
    rw [halvings, if_pos hq] at h
    obtain rfl | h := List.mem_cons.mp h
    · exact ⟨hq, le_rfl⟩
    · have := ih h
      omega
  | case2 q hq =>
    rw [halvings, if_neg hq] at h
    cases h

theorem topPower_lt (htop : top < n) : topPower n top < n := by
  induction top using topPower.induct n with
  | case1 top h ih =>
    rw [topPower, if_pos h]
    exact ih (by omega)
  | case2 top h =>
    rw [topPower, if_neg h]
    exact htop

theorem minmaxAt_rearranged (hi : i < n) (hj : j < n) (x : ℕ → BitVec 32) :
    Rearranged n x (minmaxAt i j x) := by
  rw [minmaxAt, int32Minmax_eq]
  split_ifs
  · exact .swap hi hj x
  · simpa [Function.update_eq_self] using Rearranged.refl n x

-- `a` stands for `x[j + p]` all along
theorem mergeAt_rearranged (hj : j + q < n) (x : ℕ → BitVec 32) : Rearranged n x (mergeAt p q j x) := by
  by_cases hpq : p < q
  · have hrun : ∀ l : List ℕ, (∀ r ∈ l, p < r ∧ r ≤ q) → ∀ ax : BitVec 32 × (ℕ → BitVec 32),
        Rearranged n (Function.update ax.2 (j + p) ax.1)
          (let ax := l.foldl (fun ax r =>
            let ab := int32Minmax ax.1 (ax.2 (j + r))
            (ab.1, Function.update ax.2 (j + r) ab.2)) ax
          Function.update ax.2 (j + p) ax.1) := by
      intro l hl
      induction l with
      | nil => exact fun ax => .refl n _
      | cons r l ih =>
        intro ax
        have hr := hl r (by simp)
        have hne : j + r ≠ j + p := by omega
        have hstep : Rearranged n (Function.update ax.2 (j + p) ax.1)
            (minmaxAt (j + p) (j + r) (Function.update ax.2 (j + p) ax.1)) :=
          minmaxAt_rearranged (by omega) (by omega) _
        refine hstep.trans ?_
        have heq : minmaxAt (j + p) (j + r) (Function.update ax.2 (j + p) ax.1) =
            Function.update (Function.update ax.2 (j + r) (int32Minmax ax.1 (ax.2 (j + r))).2) (j + p)
              (int32Minmax ax.1 (ax.2 (j + r))).1 := by
          rw [minmaxAt, Function.update_self, Function.update_of_ne hne, Function.update_idem]
          exact Function.update_comm hne.symm _ _ _
        rw [heq]
        exact ih (fun r hr => hl r (by simp [hr])) _
    have h := hrun (halvings q p) (fun r hr => mem_halvings hr) (x (j + p), x)
    rwa [Function.update_eq_self] at h
  · rw [mergeAt, halvings, if_neg hpq]
    simpa [Function.update_eq_self] using Rearranged.refl n x

theorem finishBlock_rearranged (hq : q < n) (hm : m ≤ p) (hj : i + p - m ≤ n - q) (x : ℕ → BitVec 32) :
    Rearranged n x (finishBlock n p q i m x).2.2.2 ∧
      ((finishBlock n p q i m x).1 = true → (finishBlock n p q i m x).2.1 = i ∧
        i ≤ (finishBlock n p q i m x).2.2.1 ∧ (finishBlock n p q i m x).2.2.1 < i + p ∧
          (finishBlock n p q i m x).2.2.1 = n - q) := by
  induction m generalizing x with
  | zero => exact ⟨.refl n x, by simp [finishBlock]⟩
  | succ m ih =>
    rw [finishBlock]
    split_ifs with hstop
    · exact ⟨.refl n x, fun _ => ⟨rfl, by dsimp only; omega, by dsimp only; omega, hstop⟩⟩
    · obtain ⟨hr, hgoto⟩ := ih (by omega) (by omega) (mergeAt p q (i + p - (m + 1)) x)
      exact ⟨(mergeAt_rearranged (by omega) x).trans hr, hgoto⟩

def Merging (n p q : ℕ) (s : ℕ × ℕ × (ℕ → BitVec 32)) : Prop :=
  s.2.1 = s.1 ∨ s.1 ≤ s.2.1 ∧ s.2.1 < s.1 + p ∧ s.2.1 ≤ n - q

theorem resumeBlock_rearranged {s : ℕ × ℕ × (ℕ → BitVec 32)} (hq : q < n) (hs : Merging n p q s) :
    Rearranged n s.2.2 (resumeBlock n p q s).2.2.2 ∧
      ((resumeBlock n p q s).1 = true → Merging n p q (resumeBlock n p q s).2) := by
  rw [resumeBlock]
  split_ifs with hne
  · obtain heq | ⟨hlow, hhigh, hbound⟩ := hs
    · exact absurd heq hne
    · obtain ⟨hr, hgoto⟩ := finishBlock_rearranged (p := p) (i := s.1) (m := s.1 + p - s.2.1) hq (by omega) (by omega)
        s.2.2
      refine ⟨hr, fun h => .inr ?_⟩
      obtain ⟨hi, h1, h2, h3⟩ := hgoto h
      rw [hi]
      exact ⟨h1, h2, h3.le⟩
  · exact ⟨.refl n _, by simp⟩

theorem mergeRound_rearranged {s : ℕ × ℕ × (ℕ → BitVec 32)} (hp : 0 < p) (hq : q < n) (hs : Merging n p q s) :
    Rearranged n s.2.2 (mergeRound n p s q).2.2 ∧ Merging n p q (mergeRound n p s q) := by
  obtain ⟨hr, hgoto⟩ := resumeBlock_rearranged hq hs
  rw [mergeRound]
  dsimp only
  split_ifs with hdone
  · exact ⟨hr, hgoto hdone⟩
  · have hbody : ∀ i, i + p ≤ n - q → ∀ x, Rearranged n x (forLoop i (i + p) (mergeAt p q) x) := fun i hi =>
      forLoop_rearranged fun j _ hj => mergeAt_rearranged (by omega)
    have hwhile := whileBlocks_rearranged (p := p) hbody (resumeBlock n p q s).2.1 (resumeBlock n p q s).2.2.2
    have hstop := whileBlocks_stop (s := p) (m := n - q) hp (resumeBlock n p q s).2.1 (resumeBlock n p q s).2.2.2
      (fun i => forLoop i (i + p) (mergeAt p q))
    refine ⟨(hr.trans hwhile).trans (forLoop_rearranged (fun j _ hj => mergeAt_rearranged (by omega)) _), ?_⟩
    rw [Merging]
    dsimp only
    omega

theorem mergeRounds_rearranged (hp : 0 < p) (hq : q < n) {s : ℕ × ℕ × (ℕ → BitVec 32)} (hs : Merging n p q s) :
    Rearranged n s.2.2 ((halvings q p).foldl (mergeRound n p) s).2.2 := by
  induction q using halvings.induct p generalizing s with
  | case1 q hpq ih =>
    rw [halvings, if_pos hpq, List.foldl_cons]
    obtain ⟨hr, hs'⟩ := mergeRound_rearranged hp hq hs
    refine hr.trans (ih (by omega) ?_)
    rw [Merging] at hs' ⊢
    omega
  | case2 q hpq =>
    rw [halvings, if_neg hpq]
    exact .refl n _

theorem sortRound_rearranged (hp : 0 < p) (htop : top < n) (x : ℕ → BitVec 32) :
    Rearranged n x (sortRound n top x p) := by
  have hbody : ∀ i, i + 2 * p ≤ n → ∀ x, Rearranged n x (forLoop i (i + p) (fun j => minmaxAt j (j + p)) x) :=
    fun i hi => forLoop_rearranged fun j _ hj => minmaxAt_rearranged (by omega) (by omega)
  have htail : ∀ i x, Rearranged n x (forLoop i (n - p) (fun j => minmaxAt j (j + p)) x) :=
    fun i => forLoop_rearranged fun j _ hj => minmaxAt_rearranged (by omega) (by omega)
  exact ((whileBlocks_rearranged hbody 0 x).trans (htail _ _)).trans (mergeRounds_rearranged hp htop (.inl rfl))

theorem cryptoSortInt32_rearranged (n : ℕ) (x : ℕ → BitVec 32) : Rearranged n x (cryptoSortInt32 n x) := by
  rw [cryptoSortInt32]
  split_ifs with hn
  · exact .refl n x
  · exact .foldl (fun p hp => sortRound_rearranged (mem_halvings hp).1 (topPower_lt (by omega))) x

theorem cryptoSortUint32_rearranged (n : ℕ) (x : ℕ → BitVec 32) : Rearranged n x (cryptoSortUint32 n x) := by
  have hinv : Function.Involutive fun v : BitVec 32 => v ^^^ 0x80000000 := by
    intro v
    dsimp only
    rw [BitVec.xor_assoc, BitVec.xor_self, BitVec.xor_zero]
  exact .conj hinv (cryptoSortInt32_rearranged n _)

end

end TkTox.Sntrup
