import TkTox.Bytes

/-!
Unsigned decimal text as `printf("%u")` writes it and `scanf("%u")` reads it.
-/

namespace TkTox

def decimal (n : ℕ) : Bytes := (Nat.toDigits 10 n).map fun c => UInt8.ofNat c.toNat

def isSpace (b : UInt8) : Bool := b = 32 || (9 ≤ b && b ≤ 13)

def isDigit (b : UInt8) : Bool := 48 ≤ b && b ≤ 57

def digitsValue (ds : Bytes) : ℕ := ds.foldl (fun v b => 10 * v + (b.toNat - 48)) 0

def strtoul (neg : Bool) (ds : Bytes) : ℕ :=
  let v := min (digitsValue ds) (2 ^ 64 - 1)
  if neg then (2 ^ 64 - v) % 2 ^ 64 else v

def scanU (b : Bytes) : Option (ℕ × Bytes) :=
  let b := b.dropWhile isSpace
  let neg := b.head? == some 45
  let b := if b.head? = some 45 ∨ b.head? = some 43 then b.tail else b
  let ds := b.takeWhile isDigit
  if ds = [] then none else some (strtoul neg ds % 2 ^ 32, b.dropWhile isDigit)

def scanUl (b : Bytes) : Option (ℕ × Bytes) :=
  let b := b.dropWhile isSpace
  let neg := b.head? == some 45
  let b := if b.head? = some 45 ∨ b.head? = some 43 then b.tail else b
  let ds := b.takeWhile isDigit
  if ds = [] then none else some (strtoul neg ds, b.dropWhile isDigit)

theorem scanU_eq (b : Bytes) : scanU b = (scanUl b).map fun q => (q.1 % 2 ^ 32, q.2) := by
  unfold scanU scanUl
  dsimp only
  split_ifs <;> rfl

theorem isDigit_ofNat {c : Char} (h : c.isDigit = true) :
    isDigit (UInt8.ofNat c.toNat) = true ∧ (UInt8.ofNat c.toNat).toNat = c.toNat := by
  obtain ⟨h1, h2⟩ : 48 ≤ c.toNat ∧ c.toNat ≤ 57 := by
    simpa [Char.isDigit, UInt32.le_iff_toNat_le] using h
  have ht : (UInt8.ofNat c.toNat).toNat = c.toNat := by
    rw [UInt8.toNat_ofNat']
    omega
  refine ⟨?_, ht⟩
  simp only [isDigit, UInt8.le_iff_toNat_le, ht, Bool.and_eq_true, decide_eq_true_eq]
  exact ⟨h1, h2⟩

theorem decimal_digits (n : ℕ) : ∀ b ∈ decimal n, isDigit b = true := by
  intro b hb
  obtain ⟨c, hc, rfl⟩ := List.mem_map.mp hb
  exact (isDigit_ofNat (Nat.isDigit_of_mem_toDigits (by decide) (by decide) hc)).1

theorem decimal_ne_nil (n : ℕ) : decimal n ≠ [] := by
  simp [decimal, Nat.toDigits_ne_nil]

theorem digitsValue_decimal (n : ℕ) : digitsValue (decimal n) = n := by
  have key : ∀ (cs : List Char) (v : ℕ), (∀ c ∈ cs, c.isDigit = true) →
      (cs.map fun c => UInt8.ofNat c.toNat).foldl (fun v b => 10 * v + (b.toNat - 48)) v =
        Nat.ofDigitChars 10 cs v := by
    intro cs
    induction cs with
    | nil => exact fun v _ => rfl
    | cons c cs ih =>
      intro v hd
      rw [List.map_cons, List.foldl_cons, (isDigit_ofNat (hd c (by simp))).2,
        Nat.ofDigitChars_cons, ih _ fun c hc => hd c (by simp [hc])]
      rfl
  rw [digitsValue, decimal, key _ _ fun c hc => Nat.isDigit_of_mem_toDigits (by decide) (by decide) hc,
    Nat.ofDigitChars_ten_toDigits]

theorem decimal_length_le {n k : ℕ} (hk : 0 < k) (h : n < 10 ^ k) : (decimal n).length ≤ k := by
  rw [decimal, List.length_map]
  exact (Nat.length_toDigits_le_iff (by decide) hk).mpr h

theorem isDigit_not_space {b : UInt8} (h : isDigit b = true) :
    isSpace b = false ∧ b ≠ 45 ∧ b ≠ 43 := by
  simp only [isDigit, Bool.and_eq_true, decide_eq_true_eq, UInt8.le_iff_toNat_le] at h
  have hb := h.1
  have hn (k : UInt8) (hk : k.toNat < 48) : b ≠ k := fun he => by
    subst he
    exact absurd hb (by simpa using hk)
  refine ⟨?_, hn 45 (by decide), hn 43 (by decide)⟩
  have h13 : ¬ b ≤ 13 := by
    rw [UInt8.le_iff_toNat_le]
    have : (13 : UInt8).toNat = 13 := rfl
    have : (48 : UInt8).toNat = 48 := rfl
    omega
  simp [isSpace, hn 32 (by decide), h13]

theorem scanUl_decimal {n : ℕ} (hn : n < 2 ^ 64) (pre rest : Bytes)
    (hpre : ∀ b ∈ pre, isSpace b = true) (hrest : ∀ b ∈ rest.head?, isDigit b = false) :
    scanUl (pre ++ decimal n ++ rest) = some (n, rest) := by
  obtain ⟨b, ds, hb⟩ := List.exists_cons_of_ne_nil (decimal_ne_nil n)
  have hdig := decimal_digits n
  obtain ⟨hsp, hm, hp⟩ := isDigit_not_space (hdig b (by rw [hb]; simp))
  have h1 : (pre ++ decimal n ++ rest).dropWhile isSpace = decimal n ++ rest := by
    rw [List.append_assoc, List.dropWhile_append_of_pos hpre, hb, List.cons_append,
      List.dropWhile_cons_of_neg (by simp [hsp])]
  have hrest' : rest.takeWhile isDigit = [] ∧ rest.dropWhile isDigit = rest := by
    cases rest with
    | nil => exact ⟨rfl, rfl⟩
    | cons c cs =>
      have := hrest c (by simp)
      simp [this]
  have h2 : (decimal n ++ rest).takeWhile isDigit = decimal n := by
    rw [List.takeWhile_append_of_pos hdig, hrest'.1, List.append_nil]
  have h3 : (decimal n ++ rest).dropWhile isDigit = rest := by
    rw [List.dropWhile_append_of_pos hdig, hrest'.2]
  have hsign : ¬ ((decimal n ++ rest).head? = some 45 ∨ (decimal n ++ rest).head? = some 43) := by
    rw [hb]
    simp [hm, hp]
  have hneg : ((decimal n ++ rest).head? == some 45) = false := by
    rw [hb]
    simp [hm]
  simp only [scanUl, h1, if_neg hsign, h2, h3, hneg, if_neg (decimal_ne_nil n), strtoul,
    digitsValue_decimal, Bool.false_eq_true, if_false]
  rw [Nat.min_eq_left (by omega)]

theorem scanU_decimal {n : ℕ} (hn : n < 2 ^ 32) (pre rest : Bytes)
    (hpre : ∀ b ∈ pre, isSpace b = true) (hrest : ∀ b ∈ rest.head?, isDigit b = false) :
    scanU (pre ++ decimal n ++ rest) = some (n, rest) := by
  rw [scanU_eq, scanUl_decimal (by omega) pre rest hpre hrest, Option.map_some, Nat.mod_eq_of_lt hn]

end TkTox
