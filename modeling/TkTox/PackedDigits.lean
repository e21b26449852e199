import TkTox.CoeffArray
import Mathlib.Data.Nat.Digits.Defs
import Mathlib.FieldTheory.Finite.Extension

/-!
Polynomials packed into natural numbers: the coefficients are the digits to a power of 2, wide enough that
products do not carry, and reduction works on all of them at once. With them one can compute the Frobenius map
often enough to see that a polynomial is irreducible.
-/

open Polynomial CoeffArray

namespace Packed

def listAdd : List ℕ → List ℕ → List ℕ
  | [], m => m
  | l, [] => l
  | a :: l, b :: m => (a + b) :: listAdd l m

def listMul : List ℕ → List ℕ → List ℕ
  | [], _ => []
  | a :: l, m => listAdd (m.map (a * ·)) (0 :: listMul l m)

section

variable {R : Type*} [CommSemiring R] {b c : ℕ}

theorem ofDigits_none (x : R) : Nat.ofDigits x [] = 0 := rfl

theorem ofDigits_some (x : R) (d : ℕ) (l : List ℕ) : Nat.ofDigits x (d :: l) = d + x * Nat.ofDigits x l := rfl

theorem ofDigits_concat (x : R) (l m : List ℕ) :
    Nat.ofDigits x (l ++ m) = Nat.ofDigits x l + x ^ l.length * Nat.ofDigits x m := by
  induction l with
  | nil => rw [List.nil_append, ofDigits_none, zero_add, List.length_nil, pow_zero, one_mul]
  | cons d l ih =>
    rw [List.cons_append, ofDigits_some, ofDigits_some, ih, List.length_cons, pow_succ']
    ring

theorem ofDigits_listAdd (x : R) (l m : List ℕ) :
    Nat.ofDigits x (listAdd l m) = Nat.ofDigits x l + Nat.ofDigits x m := by
  fun_induction listAdd l m with
  | case1 m => rw [ofDigits_none, zero_add]
  | case2 l => rw [ofDigits_none, add_zero]
  | case3 a l b m ih =>
    rw [ofDigits_some, ofDigits_some, ofDigits_some, ih]
    push_cast
    ring

theorem ofDigits_map_mul (x : R) (a : ℕ) (l : List ℕ) :
    Nat.ofDigits x (l.map (a * ·)) = a * Nat.ofDigits x l := by
  induction l with
  | nil => rw [List.map_nil, ofDigits_none, mul_zero]
  | cons d l ih =>
    rw [List.map_cons, ofDigits_some, ofDigits_some, ih]
    push_cast
    ring

theorem ofDigits_listMul (x : R) (l m : List ℕ) :
    Nat.ofDigits x (listMul l m) = Nat.ofDigits x l * Nat.ofDigits x m := by
  induction l with
  | nil => rw [listMul, ofDigits_none, zero_mul]
  | cons a l ih =>
    rw [listMul, ofDigits_listAdd, ofDigits_map_mul, ofDigits_some, ofDigits_some, ih]
    push_cast
    ring

theorem length_listAdd (l m : List ℕ) : (listAdd l m).length = max l.length m.length := by
  fun_induction listAdd l m with
  | case1 m => simp
  | case2 l => simp
  | case3 a l b m ih =>
    simp only [List.length_cons, ih]
    omega

theorem length_listMul (l : List ℕ) {m : List ℕ} (hm : m ≠ []) (hl : l ≠ []) :
    (listMul l m).length = l.length + m.length - 1 := by
  have hm' := List.length_pos_of_ne_nil hm
  induction l with
  | nil => exact absurd rfl hl
  | cons a l ih =>
    rw [listMul, length_listAdd, List.length_map, List.length_cons, List.length_cons]
    by_cases h : l = []
    · subst h
      simp only [listMul, List.length_nil]
      omega
    · rw [ih h]
      omega

theorem listAdd_le {l m : List ℕ} (hl : ∀ d ∈ l, d ≤ b) (hm : ∀ d ∈ m, d ≤ c) : ∀ d ∈ listAdd l m, d ≤ b + c := by
  fun_induction listAdd l m with
  | case1 m => exact fun d hd => (hm d hd).trans (Nat.le_add_left c b)
  | case2 l => exact fun d hd => (hl d hd).trans (Nat.le_add_right b c)
  | case3 x l y m ih =>
    intro d hd
    obtain rfl | hd := List.mem_cons.mp hd
    · exact Nat.add_le_add (hl x (by simp)) (hm y (by simp))
    · exact ih (fun d hd => hl d (by simp [hd])) (fun d hd => hm d (by simp [hd])) d hd

theorem listMul_le {l m : List ℕ} (hl : ∀ d ∈ l, d ≤ b) (hm : ∀ d ∈ m, d ≤ c) :
    ∀ d ∈ listMul l m, d ≤ l.length * (b * c) := by
  induction l with
  | nil => simp [listMul]
  | cons a l ih =>
    have ha : ∀ d ∈ m.map (a * ·), d ≤ b * c := by
      intro d hd
      obtain ⟨e, he, rfl⟩ := List.mem_map.mp hd
      exact Nat.mul_le_mul (hl a (by simp)) (hm e he)
    have hrest : ∀ d ∈ 0 :: listMul l m, d ≤ l.length * (b * c) := by
      intro d hd
      obtain rfl | hd := List.mem_cons.mp hd
      · exact Nat.zero_le _
      · exact ih (fun d hd => hl d (by simp [hd])) d hd
    intro d hd
    rw [listMul] at hd
    have h := listAdd_le ha hrest d hd
    rw [List.length_cons, add_mul, one_mul]
    omega

end

def mask (W k : ℕ) : ℕ → ℕ
  | 0 => 0
  | n + 1 => mask W k n <<< W + (2 ^ k - 1)

section

variable {W s : ℕ}

theorem shift_and_mask (hs : s ≤ W) {l : List ℕ} (hl : ∀ d ∈ l, d < 2 ^ W) :
    (Nat.ofDigits (2 ^ W) l >>> s) &&& mask W (W - s) l.length = Nat.ofDigits (2 ^ W) (l.map (· >>> s)) := by
  induction l with
  | nil => simp [mask]
  | cons d l ih =>
    have hd := hl d (by simp)
    have hsplit : (2 : ℕ) ^ W = 2 ^ s * 2 ^ (W - s) := by rw [← pow_add, Nat.add_sub_cancel' hs]
    have hpos : 0 < 2 ^ s := Nat.two_pow_pos s
    have hdiv : d / 2 ^ s < 2 ^ (W - s) := by
      rw [Nat.div_lt_iff_lt_mul hpos, mul_comm, ← hsplit]
      exact hd
    have hlt : 2 ^ (W - s) ≤ 2 ^ W := Nat.pow_le_pow_right (by decide) (Nat.sub_le W s)
    set A := Nat.ofDigits (2 ^ W) l with hA
    set M := mask W (W - s) l.length with hM
    have hx : (d + 2 ^ W * A) >>> s = d / 2 ^ s + 2 ^ (W - s) * A := by
      rw [Nat.shiftRight_eq_div_pow, hsplit, mul_assoc, Nat.add_mul_div_left _ _ hpos]
    have hy : mask W (W - s) (d :: l).length = M * 2 ^ W + (2 ^ (W - s) - 1) := by
      rw [List.length_cons, mask, Nat.shiftLeft_eq]
    have ih' : A / 2 ^ s &&& M = Nat.ofDigits (2 ^ W) (l.map (· >>> s)) := by
      rw [← Nat.shiftRight_eq_div_pow]
      exact ih fun d hd => hl d (by simp [hd])
    have hpred : 2 ^ (W - s) - 1 < 2 ^ W := by
      have := Nat.two_pow_pos (W - s)
      omega
    rw [Nat.ofDigits_cons, List.map_cons, Nat.ofDigits_cons, ← ih', ← hA, hx, hy]
    have hhigh : (d / 2 ^ s + 2 ^ (W - s) * A) / 2 ^ W = A / 2 ^ s := by
      rw [hsplit, mul_comm (2 ^ s), ← Nat.div_div_eq_div_mul, Nat.add_mul_div_left _ _ (Nat.two_pow_pos _),
        Nat.div_eq_of_lt hdiv, zero_add]
    have hlow : (d / 2 ^ s + 2 ^ (W - s) * A) % 2 ^ W &&& (2 ^ (W - s) - 1) = d / 2 ^ s := by
      rw [Nat.and_two_pow_sub_one_eq_mod, hsplit, mul_comm (2 ^ s), Nat.mod_mul_right_mod, Nat.add_mul_mod_self_left,
        Nat.mod_eq_of_lt hdiv]
    rw [← Nat.mod_add_div ((d / 2 ^ s + 2 ^ (W - s) * A) &&& (M * 2 ^ W + (2 ^ (W - s) - 1))) (2 ^ W),
      Nat.and_mod_two_pow, Nat.and_div_two_pow, hhigh, Nat.mul_add_mod', Nat.mod_eq_of_lt hpred, hlow,
      Nat.shiftRight_eq_div_pow]
    congr 3
    rw [mul_comm, Nat.mul_add_div (Nat.two_pow_pos W), Nat.div_eq_of_lt hpred, add_zero]

end

section

variable {R : Type*} [CommRing R] {P : R[X]} {W n b c : ℕ} {A B : ℕ} {x y : AdjoinRoot P}

def Rep (W n b : ℕ) (A : ℕ) (x : AdjoinRoot P) : Prop :=
  ∃ l : List ℕ, l.length = n ∧ (∀ d ∈ l, d ≤ b) ∧ Nat.ofDigits (2 ^ W) l = A ∧
    AdjoinRoot.mk P (Nat.ofDigits X l) = x

theorem Rep.mul (hn : 0 < n) (hA : Rep W n b A x) (hB : Rep W n c B y) :
    Rep W (2 * n - 1) (n * (b * c)) (A * B) (x * y) := by
  obtain ⟨l, hl, hlb, rfl, rfl⟩ := hA
  obtain ⟨m, hm, hmc, rfl, rfl⟩ := hB
  refine ⟨listMul l m, ?_, ?_, ofDigits_listMul _ l m, by rw [ofDigits_listMul, map_mul]⟩
  · have hne : l ≠ [] ∧ m ≠ [] := by
      constructor <;> rintro rfl <;> simp at hl hm <;> omega
    rw [length_listMul l hne.2 hne.1, hl, hm]
    omega
  · rw [← hl]
    exact listMul_le hlb hmc

def foldHigh (W n t : ℕ) : ℕ := t % 2 ^ (W * n) + t >>> (W * n) + (t >>> (W * n)) <<< W

theorem Rep.foldHigh {x : AdjoinRoot (modulus R n)} (hn : 0 < n) (hb : b < 2 ^ W) (hA : Rep W (2 * n - 1) b A x) :
    Rep W n (3 * b) (foldHigh W n A) x := by
  obtain ⟨l, hl, hlb, rfl, rfl⟩ := hA
  have hdigit : ∀ d ∈ l, d < 2 ^ W := fun d hd => (hlb d hd).trans_lt hb
  have hpos : 0 < 2 ^ W := Nat.two_pow_pos W
  have hlow := Nat.ofDigits_mod_pow_eq_ofDigits_take n hpos l hdigit
  have hhigh := Nat.ofDigits_div_pow_eq_ofDigits_drop n hpos l hdigit
  refine ⟨listAdd (listAdd (l.take n) (l.drop n)) (0 :: l.drop n), ?_, ?_, ?_, ?_⟩
  · rw [length_listAdd, length_listAdd, List.length_take, List.length_cons, List.length_drop]
    omega
  · have htake : ∀ d ∈ l.take n, d ≤ b := fun d hd => hlb d (List.mem_of_mem_take hd)
    have hdrop : ∀ d ∈ l.drop n, d ≤ b := fun d hd => hlb d (List.mem_of_mem_drop hd)
    have hcons : ∀ d ∈ 0 :: l.drop n, d ≤ b := by
      intro d hd
      obtain rfl | hd := List.mem_cons.mp hd
      · exact Nat.zero_le b
      · exact hdrop d hd
    intro d hd
    have := listAdd_le (listAdd_le htake hdrop) hcons d hd
    omega
  · rw [ofDigits_listAdd, ofDigits_listAdd, ofDigits_some, Packed.foldHigh, Nat.shiftRight_eq_div_pow, pow_mul, hlow, hhigh,
      Nat.shiftLeft_eq, Nat.cast_zero, zero_add, mul_comm (2 ^ W)]
  · have hX : AdjoinRoot.mk (modulus R n) (X ^ n) = AdjoinRoot.mk (modulus R n) (X + 1) := by
      rw [modulus_eq, map_add, AdjoinRoot.mk_self, zero_add]
    have hcat := ofDigits_concat (X : R[X]) (l.take n) (l.drop n)
    rw [List.take_append_drop, List.length_take_of_le (by omega)] at hcat
    rw [hcat, ofDigits_listAdd, ofDigits_listAdd, ofDigits_some, map_add, map_add, map_add, map_add, map_mul, map_mul, hX]
    simp only [map_add, map_one, map_zero, Nat.cast_zero]
    ring

def reduceDigits (W n q s m u t : ℕ) : ℕ :=
  t - q * ((((t >>> s) &&& mask W (W - s) n) * m) >>> u &&& mask W (W - u) n)

theorem ofDigits_map_sub (f : ℕ → ℕ) (x : ℕ) {l : List ℕ} (h : ∀ d ∈ l, f d ≤ d) :
    Nat.ofDigits x (l.map fun d => d - f d) + Nat.ofDigits x (l.map f) = Nat.ofDigits x l := by
  induction l with
  | nil => rfl
  | cons d l ih =>
    have ih' := ih fun d hd => h d (by simp [hd])
    have hd := h d (by simp)
    simp only [List.map_cons, ofDigits_some, Nat.cast_id]
    rw [← ih']
    have hle : d - f d + f d = d := Nat.sub_add_cancel hd
    linarith [mul_add x (Nat.ofDigits x (l.map fun d => d - f d)) (Nat.ofDigits x (l.map f))]

theorem ofDigits_map_congr {S : Type*} [CommSemiring S] (x : S) {f : ℕ → ℕ} {l : List ℕ}
    (h : ∀ d ∈ l, (f d : S) = d) : Nat.ofDigits x (l.map f) = Nat.ofDigits x l := by
  induction l with
  | nil => rfl
  | cons d l ih => rw [List.map_cons, ofDigits_some, ofDigits_some, h d (by simp), ih fun d hd => h d (by simp [hd])]

theorem Rep.reduceDigits {q s m u : ℕ} (hq : (q : R) = 0) (hs : s ≤ W) (hu : u ≤ W) (hb : b < 2 ^ W)
    (hest : ∀ t ≤ b, m * (t >>> s) < 2 ^ W ∧ q * ((m * (t >>> s)) >>> u) ≤ t ∧ t - q * ((m * (t >>> s)) >>> u) ≤ c)
    (hA : Rep W n b A x) : Rep W n c (reduceDigits W n q s m u A) x := by
  obtain ⟨l, rfl, hlb, rfl, rfl⟩ := hA
  have hfirst := shift_and_mask hs fun d hd => (hlb d hd).trans_lt hb
  have hmul := ofDigits_map_mul (2 ^ W) m (l.map (· >>> s))
  have hlt : ∀ d ∈ (l.map (· >>> s)).map (m * ·), d < 2 ^ W := by
    intro d hd
    obtain ⟨e, he, rfl⟩ := List.mem_map.mp hd
    obtain ⟨t, ht, rfl⟩ := List.mem_map.mp he
    exact (hest t (hlb t ht)).1
  have hsecond := shift_and_mask hu hlt
  simp only [List.length_map] at hsecond
  rw [hmul, Nat.cast_id, ← hfirst, mul_comm m, List.map_map, List.map_map] at hsecond
  refine ⟨l.map fun t => t - q * ((m * (t >>> s)) >>> u), by rw [List.length_map], ?_, ?_, ?_⟩
  · intro d hd
    obtain ⟨t, ht, rfl⟩ := List.mem_map.mp hd
    exact (hest t (hlb t ht)).2.2
  · have hsub := ofDigits_map_sub (fun t => q * ((m * (t >>> s)) >>> u)) (2 ^ W) fun t ht => (hest t (hlb t ht)).2.1
    have hq' := ofDigits_map_mul (2 ^ W) q (l.map fun t => (m * (t >>> s)) >>> u)
    rw [List.map_map] at hq'
    rw [Packed.reduceDigits, hsecond]
    exact (Nat.sub_eq_of_eq_add (hsub.symm.trans (congrArg _ hq'))).symm
  · rw [ofDigits_map_congr X]
    intro t ht
    have hcast : ((q : ℕ) : R[X]) = 0 := by rw [← C_eq_natCast, hq, C_0]
    rw [Nat.cast_sub (hest t (hlb t ht)).2.1, Nat.cast_mul, hcast, zero_mul, sub_zero]

def digitsAre (W q : ℕ) : List ℕ → ℕ → Bool
  | [], A => A == 0
  | e :: es, A => A % 2 ^ W % q == e && digitsAre W q es (A >>> W)

theorem ofDigits_eq_zero {S : Type*} [CommSemiring S] (x : S) {l : List ℕ} (h : Nat.ofDigits (2 ^ W) l = 0) :
    Nat.ofDigits x l = 0 := by
  induction l with
  | nil => rfl
  | cons d l ih =>
    rw [ofDigits_some, Nat.cast_id, Nat.add_eq_zero_iff, Nat.mul_eq_zero] at h
    obtain ⟨rfl, h | h⟩ := h
    · exact absurd h (Nat.two_pow_pos W).ne'
    · rw [ofDigits_some, ih h, Nat.cast_zero, mul_zero, add_zero]

theorem ofDigits_of_digitsAre {S : Type*} [CommSemiring S] (x : S) {q : ℕ} (hq : (q : S) = 0) {es l : List ℕ}
    (hl : ∀ d ∈ l, d < 2 ^ W) (h : digitsAre W q es (Nat.ofDigits (2 ^ W) l) = true) :
    Nat.ofDigits x l = Nat.ofDigits x es := by
  induction es generalizing l with
  | nil =>
    rw [digitsAre, beq_iff_eq] at h
    exact ofDigits_eq_zero x h
  | cons e es ih =>
    rw [digitsAre, Bool.and_eq_true, beq_iff_eq] at h
    obtain ⟨h1, h2⟩ := h
    cases l with
    | nil =>
      rw [ofDigits_none, Nat.zero_shiftRight] at h2
      rw [ofDigits_none, Nat.zero_mod, Nat.zero_mod] at h1
      rw [ofDigits_some, ← ih (l := []) (by simp) h2, ← h1, ofDigits_none, Nat.cast_zero, mul_zero, add_zero]
    | cons d l =>
      have hd := hl d (by simp)
      rw [ofDigits_some, Nat.cast_id] at h1 h2
      rw [Nat.add_mul_mod_self_left, Nat.mod_eq_of_lt hd] at h1
      rw [Nat.shiftRight_eq_div_pow, Nat.add_mul_div_left _ _ (Nat.two_pow_pos W), Nat.div_eq_of_lt hd, zero_add] at h2
      have hcast : (d : S) = e := by
        rw [← Nat.div_add_mod d q, h1]
        push_cast
        rw [hq, zero_mul, zero_add]
      rw [ofDigits_some, ofDigits_some, hcast, ih (fun d hd => hl d (by simp [hd])) h2]

theorem Rep.of_digitsAre {q : ℕ} (hq : (q : R) = 0) (hb : b < 2 ^ W) (hA : Rep W n b A x) {es : List ℕ}
    (h : digitsAre W q es A = true) : x = AdjoinRoot.mk P (Nat.ofDigits X es) := by
  obtain ⟨l, -, hlb, rfl, rfl⟩ := hA
  have hcast : ((q : ℕ) : R[X]) = 0 := by rw [← C_eq_natCast, hq, C_0]
  rw [ofDigits_of_digitsAre X hcast (fun d hd => (hlb d hd).trans_lt hb) h]

def rounds (F : ℕ → ℕ) : ℕ → ℕ → ℕ
  | 0, A => A
  | j + 1, 0 => rounds F j (F 0)
  | j + 1, A + 1 => rounds F j (F (A + 1))

theorem rounds_succ (F : ℕ → ℕ) (j A : ℕ) : rounds F (j + 1) A = rounds F j (F A) := by
  cases A <;> rfl

theorem Rep.rounds {F : ℕ → ℕ} {k : ℕ}
    (hF : ∀ (A : ℕ) (x : AdjoinRoot P), Rep W n b A x → Rep W n b (F A) (x ^ k)) (hA : Rep W n b A x) (j : ℕ) :
    Rep W n b (rounds F j A) (x ^ k ^ j) := by
  induction j generalizing A x with
  | zero => rwa [pow_zero, pow_one]
  | succ j ih =>
    rw [rounds_succ, pow_succ', pow_mul]
    exact ih (hF A x hA)

end

theorem irreducible_of_frobenius {F : Type*} [Field F] [Finite F] {P : F[X]} {n : ℕ} (hn : n.Prime)
    (hP : P.natDegree = n) (hroot : ∀ a, ¬ P.IsRoot a) (h : AdjoinRoot.root P ^ Nat.card F ^ n = AdjoinRoot.root P) :
    Irreducible P := by
  have hP0 : P ≠ 0 := by
    rintro rfl
    exact hroot 0 (by simp)
  have hunit : ¬ IsUnit P := by
    intro hu
    have := natDegree_eq_zero_of_isUnit hu
    exact hn.ne_zero (hP.symm.trans this)
  obtain ⟨g, hg, c, hc⟩ := WfDvdMonoid.exists_irreducible_factor hunit hP0
  have hdvd : P ∣ X ^ Nat.card F ^ n - X := by
    rw [← AdjoinRoot.mk_eq_mk, map_pow, AdjoinRoot.mk_X]
    exact h
  have hdeg := hg.natDegree_dvd_of_dvd_X_pow_card_pow_sub_X ((Dvd.intro c hc.symm).trans hdvd)
  obtain h1 | h1 := (Nat.dvd_prime hn).mp hdeg
  · obtain ⟨a, ha⟩ := exists_root_of_degree_eq_one (degree_eq_iff_natDegree_eq_of_pos Nat.one_pos |>.mpr h1)
    refine absurd ?_ (hroot a)
    rw [hc]
    exact root_mul_right_of_isRoot c ha
  · have hc0 : c ≠ 0 := by
      rintro rfl
      exact hP0 (by rw [hc, mul_zero])
    have hsum := natDegree_mul hg.ne_zero hc0
    rw [← hc, hP, h1] at hsum
    have hunit : IsUnit c := by
      rw [isUnit_iff_degree_eq_zero, degree_eq_natDegree hc0, show c.natDegree = 0 by omega]
      rfl
    rw [hc]
    exact (irreducible_mul_isUnit hunit).mpr hg

end Packed
