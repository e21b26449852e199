import TkTox.Bytes
import TkTox.SntrupWords

/-!
`Encode` and `Decode` of `sntrup761.c`: lists of residues to mixed radices, packed pair by pair, and
the codecs of the polynomials over them. A list of residues comes with the list of its moduli.
-/

namespace TkTox.Sntrup

-- the low bytes of `r` go out until `m` fits 14 bits; a round takes 8 bits of a 32-bit word
def shed : ℕ → ℕ → ℕ → Bytes × ℕ × ℕ
  | 0, r, m => ([], r, m)
  | n + 1, r, m =>
    if m ≥ 16384 then
      let t := shed n (r >>> 8) ((m + 255) >>> 8)
      (UInt8.ofNat r :: t.1, t.2)
    else ([], r, m)

def encodeLast : ℕ → ℕ → ℕ → Bytes
  | 0, _, _ => []
  | n + 1, r, m => if m > 1 then UInt8.ofNat r :: encodeLast n (r >>> 8) ((m + 255) >>> 8) else []

def encodePairs : List (ℕ × ℕ) → Bytes × List (ℕ × ℕ)
  | (r0, m0) :: (r1, m1) :: l =>
    let t := shed 4 ((r0 + r1 * m0) % 2 ^ 32) (m1 * m0 % 2 ^ 32)
    let rest := encodePairs l
    (t.1 ++ rest.1, (t.2.1 % 2 ^ 16, t.2.2 % 2 ^ 16) :: rest.2)
  | l => ([], l)

-- every call has half as many residues, so their number bounds the depth
def encodeN : ℕ → List (ℕ × ℕ) → Bytes
  | 0, _ => []
  | n + 1, l =>
    match l with
    | [] => []
    | [(r, m)] => encodeLast 4 r m
    | l => (encodePairs l).1 ++ encodeN n (encodePairs l).2

def encode (l : List (ℕ × ℕ)) : Bytes := encodeN l.length l

def byteAt (S : Bytes) (i : ℕ) : ℕ := (S.getD i 0).toNat

def bottom (S : Bytes) (m0 m1 : ℕ) : (ℕ × ℕ × ℕ) × Bytes :=
  let m := m0 * m1 % 2 ^ 32
  if m > 256 * 16383 then
    ((256 * 256, byteAt S 0 + 256 * byteAt S 1, (((m + 255) >>> 8) + 255) >>> 8), S.drop 2)
  else if m ≥ 16384 then ((256, byteAt S 0, (m + 255) >>> 8), S.drop 1)
  else ((1, 0, m), S)

def bottoms : Bytes → List ℕ → List (ℕ × ℕ) × List ℕ × Bytes
  | S, m0 :: m1 :: M =>
    let t := bottom S m0 m1
    let rest := bottoms t.2 M
    ((t.1.1, t.1.2.1) :: rest.1, t.1.2.2 % 2 ^ 16 :: rest.2.1, rest.2.2)
  | S, M => ([], M, S)

-- the pairs are taken apart again; an odd last one is as it was decoded
def unpairs : List ℕ → List (ℕ × ℕ) → List ℕ → List ℕ
  | m0 :: m1 :: M, (t, b) :: bs, r2 :: R2 =>
    let r := (b + t * r2) % 2 ^ 32
    let d := uint32DivmodUint14 r m0
    d.2 :: uint32ModUint14 d.1 m1 :: unpairs M bs R2
  | _, _, R2 => R2

def decodeLast (S : Bytes) (m : ℕ) : ℕ :=
  if m = 1 then 0
  else if m ≤ 256 then uint32ModUint14 (byteAt S 0) m
  else uint32ModUint14 (byteAt S 0 + byteAt S 1 <<< 8) m

def decodeN : ℕ → Bytes → List ℕ → List ℕ
  | 0, _, _ => []
  | n + 1, S, M =>
    match M with
    | [] => []
    | [m] => [decodeLast S m]
    | M =>
      let t := bottoms S M
      unpairs M t.1 (decodeN n t.2.2 t.2.1)

def decode (S : Bytes) (M : List ℕ) : List ℕ := decodeN M.length S M

def Residues (l : List (ℕ × ℕ)) : Prop := ∀ x ∈ l, x.1 < x.2 ∧ x.2 < 2 ^ 14

section

variable {r m : ℕ}

theorem byteAt_cons (b : UInt8) (S : Bytes) : byteAt (b :: S) 0 = b.toNat := rfl

theorem byteAt_cons_succ (b : UInt8) (S : Bytes) (i : ℕ) : byteAt (b :: S) (i + 1) = byteAt S i := rfl

theorem bottom_shed (hr : r < m) (hm : m < 2 ^ 28) {m0 m1 : ℕ} (hmm : m0 * m1 = m) (rest : Bytes) :
    ∃ t b r2 m2, shed 4 r m = ((shed 4 r m).1, r2, m2) ∧ bottom ((shed 4 r m).1 ++ rest) m0 m1 = ((t, b, m2), rest) ∧
      b + t * r2 = r ∧ r2 < m2 ∧ m2 < 2 ^ 14 := by
  have hmod : m0 * m1 % 2 ^ 32 = m := by
    rw [hmm]
    omega
  by_cases h1 : m ≥ 16384
  · by_cases h2 : m > 256 * 16383
    · have hs : shed 4 r m = ([UInt8.ofNat r, UInt8.ofNat (r >>> 8)], r >>> 8 >>> 8, ((m + 255) >>> 8 + 255) >>> 8) := by
        have h3 : (m + 255) >>> 8 ≥ 16384 := by
          rw [Nat.shiftRight_eq_div_pow]
          omega
        have h4 : ¬ ((m + 255) >>> 8 + 255) >>> 8 ≥ 16384 := by
          simp only [Nat.shiftRight_eq_div_pow]
          omega
        simp only [shed, if_pos h1, if_pos h3, if_neg h4]
      refine ⟨256 * 256, r % 256 + 256 * (r / 256 % 256), r >>> 8 >>> 8, ((m + 255) >>> 8 + 255) >>> 8, by rw [hs], ?_, ?_, ?_, ?_⟩
      · rw [hs]
        simp only [bottom, hmod, if_pos h2, List.cons_append, List.nil_append, byteAt_cons, byteAt_cons_succ,
          UInt8.toNat_ofNat', Nat.shiftRight_eq_div_pow]
        rfl
      all_goals simp only [Nat.shiftRight_eq_div_pow]; omega
    · have hs : shed 4 r m = ([UInt8.ofNat r], r >>> 8, (m + 255) >>> 8) := by
        have h3 : ¬ (m + 255) >>> 8 ≥ 16384 := by
          rw [Nat.shiftRight_eq_div_pow]
          omega
        simp only [shed, if_pos h1, if_neg h3]
      refine ⟨256, r % 256, r >>> 8, (m + 255) >>> 8, by rw [hs], ?_, ?_, ?_, ?_⟩
      · rw [hs]
        simp only [bottom, hmod, if_neg h2, if_pos h1, List.cons_append, List.nil_append, byteAt_cons,
          UInt8.toNat_ofNat']
        rfl
      all_goals simp only [Nat.shiftRight_eq_div_pow]; omega
  · have hs : shed 4 r m = ([], r, m) := by simp only [shed, if_neg h1]
    have h2 : ¬ m > 256 * 16383 := by omega
    refine ⟨1, 0, r, m, by rw [hs], ?_, by omega, hr, by omega⟩
    rw [hs]
    simp only [bottom, hmod, if_neg h2, if_neg h1, List.nil_append]

theorem uint32ModUint14_eq {x : ℕ} (hx : x < 2 ^ 32) (hm : 0 < m) (hm' : m < 2 ^ 14) :
    uint32ModUint14 x m = x % m := by
  rw [uint32ModUint14, uint32DivmodUint14_eq hx hm hm']

theorem encodePairs_bottoms {l : List (ℕ × ℕ)} (h : Residues l) (rest : Bytes) :
    Residues (encodePairs l).2 ∧ 2 * (encodePairs l).2.length ≤ l.length + 1 ∧
      ∃ ts, bottoms ((encodePairs l).1 ++ rest) (l.map Prod.snd) =
        (ts, (encodePairs l).2.map Prod.snd, rest) ∧
      unpairs (l.map Prod.snd) ts ((encodePairs l).2.map Prod.fst) = l.map Prod.fst := by
  fun_induction encodePairs l with
  | case1 r0 m0 r1 m1 l t next ih =>
    obtain ⟨h0, h1, hl⟩ : (r0 < m0 ∧ m0 < 2 ^ 14) ∧ (r1 < m1 ∧ m1 < 2 ^ 14) ∧ Residues l := by
      refine ⟨h (r0, m0) (by simp), h (r1, m1) (by simp), fun x hx => h x (by simp [hx])⟩
    obtain ⟨hres, hlen, ts, hts, hun⟩ := ih hl
    have hmul : m0 * m1 < 2 ^ 28 := by nlinarith
    have hr : r0 + r1 * m0 < m0 * m1 := by nlinarith
    have hmod1 : (r0 + r1 * m0) % 2 ^ 32 = r0 + r1 * m0 := Nat.mod_eq_of_lt (by omega)
    have hmod2 : m1 * m0 % 2 ^ 32 = m0 * m1 := by
      rw [mul_comm]
      exact Nat.mod_eq_of_lt (by omega)
    obtain ⟨a, b, r2, m2, hshed, hbot, hsum, hr2, hm2⟩ := bottom_shed hr hmul rfl (next.1 ++ rest)
    have ht : t = ((shed 4 (r0 + r1 * m0) (m0 * m1)).1, r2, m2) := by
      rw [← hshed, ← hmod1, ← hmod2, hmod1]
      simp only [t, hmod1, hmod2]
    rw [ht]
    dsimp only
    rw [Nat.mod_eq_of_lt (show r2 < 2 ^ 16 by omega), Nat.mod_eq_of_lt (show m2 < 2 ^ 16 by omega)]
    refine ⟨?_, ?_, (a, b) :: ts, ?_, ?_⟩
    · intro x hx
      obtain rfl | hx := List.mem_cons.mp hx
      · exact ⟨hr2, hm2⟩
      · exact hres x hx
    · simp only [List.length_cons, next]
      omega
    · simp only [List.map_cons, List.append_assoc, bottoms, hbot]
      simp only [next] at hbot ⊢
      rw [hts, Nat.mod_eq_of_lt (show m2 < 2 ^ 16 by omega)]
    · have hm0 : 0 < m0 := by omega
      have hdiv : (r0 + r1 * m0) / m0 = r1 := by
        rw [Nat.add_mul_div_right _ _ hm0, Nat.div_eq_of_lt h0.1, zero_add]
      have hmod : (r0 + r1 * m0) % m0 = r0 := by
        rw [Nat.add_mul_mod_self_right, Nat.mod_eq_of_lt h0.1]
      simp only [List.map_cons, unpairs, hsum, hmod1]
      rw [uint32DivmodUint14_eq (by omega) hm0 h0.2, hdiv, hmod, uint32ModUint14_eq (by omega) (by omega) h1.2,
        Nat.mod_eq_of_lt h1.1, hun]
  | case2 l hne =>
    match l, hne with
    | [], _ => exact ⟨h, by simp, [], rfl, rfl⟩
    | [x], _ => exact ⟨h, by simp, [], rfl, rfl⟩
    | (r0, m0) :: (r1, m1) :: l, hne => exact absurd rfl (hne r0 m0 r1 m1 l)

theorem decodeLast_encodeLast (hr : r < m) (hm : m < 2 ^ 14) (rest : Bytes) :
    decodeLast (encodeLast 4 r m ++ rest) m = r := by
  by_cases h1 : m = 1
  · rw [decodeLast, if_pos h1]
    omega
  by_cases h2 : m ≤ 256
  · have he : encodeLast 4 r m = [UInt8.ofNat r] := by
      have h3 : ¬ (m + 255) >>> 8 > 1 := by
        rw [Nat.shiftRight_eq_div_pow]
        omega
      simp only [encodeLast, if_pos (show m > 1 by omega), if_neg h3]
    rw [he, decodeLast, if_neg h1, if_pos h2, List.cons_append, byteAt_cons, UInt8.toNat_ofNat',
      Nat.mod_eq_of_lt (by omega), uint32ModUint14_eq (by omega) (by omega) hm, Nat.mod_eq_of_lt hr]
  · have he : encodeLast 4 r m = [UInt8.ofNat r, UInt8.ofNat (r >>> 8)] := by
      have h3 : (m + 255) >>> 8 > 1 := by
        rw [Nat.shiftRight_eq_div_pow]
        omega
      have h4 : ¬ ((m + 255) >>> 8 + 255) >>> 8 > 1 := by
        simp only [Nat.shiftRight_eq_div_pow]
        omega
      simp only [encodeLast, if_pos (show m > 1 by omega), if_pos h3, if_neg h4]
    have hsum : r % 256 + (r / 256 % 256) * 256 = r := by omega
    rw [he, decodeLast, if_neg h1, if_neg h2]
    simp only [List.cons_append, byteAt_cons, byteAt_cons_succ, UInt8.toNat_ofNat', Nat.shiftRight_eq_div_pow,
      Nat.shiftLeft_eq]
    rw [show (2 : ℕ) ^ 8 = 256 by decide, hsum, uint32ModUint14_eq (by omega) (by omega) hm, Nat.mod_eq_of_lt hr]

theorem decodeN_encodeN {n : ℕ} {l : List (ℕ × ℕ)} (hn : l.length ≤ n) (h : Residues l) (rest : Bytes) :
    decodeN n (encodeN n l ++ rest) (l.map Prod.snd) = l.map Prod.fst := by
  induction n generalizing l with
  | zero =>
    rw [List.length_eq_zero_iff.mp (Nat.le_zero.mp hn)]
    rfl
  | succ n ih =>
    match l, hn, h with
    | [], _, _ => rfl
    | [(r, m)], _, h =>
      obtain ⟨hr, hm⟩ := h (r, m) (by simp)
      simp only [encodeN, List.map_cons, List.map_nil, decodeN, decodeLast_encodeLast hr hm]
    | x :: y :: l, hn, h =>
      obtain ⟨hres, hlen, ts, hts, hun⟩ := encodePairs_bottoms h (encodeN n (encodePairs (x :: y :: l)).2 ++ rest)
      simp only [List.length_cons] at hn hlen
      have hih := ih (by omega) hres
      simp only [encodeN, List.map_cons, decodeN, List.append_assoc]
      rw [← List.map_cons, ← List.map_cons, hts]
      dsimp only
      rw [hih, hun]
      rfl

theorem decode_encode {l : List (ℕ × ℕ)} (h : Residues l) (rest : Bytes) :
    decode (encode l ++ rest) (l.map Prod.snd) = l.map Prod.fst := by
  rw [decode, List.length_map, encode]
  exact decodeN_encodeN le_rfl h rest

end

/-! ### Bytes that nothing encoded -/

section

variable {l : List ℕ}

def Moduli (l : List ℕ) : Prop := ∀ m ∈ l, 0 < m ∧ m < 2 ^ 14

theorem bottom_modulus (S : Bytes) {m0 m1 : ℕ} (h0 : 0 < m0 ∧ m0 < 2 ^ 14) (h1 : 0 < m1 ∧ m1 < 2 ^ 14) :
    0 < (bottom S m0 m1).1.2.2 ∧ (bottom S m0 m1).1.2.2 < 2 ^ 14 := by
  have hpos : 0 < m0 * m1 := Nat.mul_pos h0.1 h1.1
  have hmul : m0 * m1 < 2 ^ 28 := by nlinarith
  have hmod : m0 * m1 % 2 ^ 32 = m0 * m1 := Nat.mod_eq_of_lt (by omega)
  simp only [bottom, hmod]
  split
  · simp only [Nat.shiftRight_eq_div_pow]
    omega
  split
  · simp only [Nat.shiftRight_eq_div_pow]
    omega
  · change 0 < m0 * m1 ∧ m0 * m1 < 2 ^ 14
    omega

theorem bottoms_moduli (S : Bytes) (h : Moduli l) :
    Moduli (bottoms S l).2.1 ∧ 2 * (bottoms S l).2.1.length ≤ l.length + 1 ∧
      ∀ R2, List.Forall₂ (· < ·) R2 (bottoms S l).2.1 →
        List.Forall₂ (· < ·) (unpairs l (bottoms S l).1 R2) l := by
  fun_induction bottoms S l with
  | case1 S m0 m1 M t next ih =>
    have h0 := h m0 (by simp)
    have h1 := h m1 (by simp)
    obtain ⟨hmod, hlen, hun⟩ := ih fun m hm => h m (by simp [hm])
    have hb := bottom_modulus S h0 h1
    have ht : t.1.2.2 % 2 ^ 16 = t.1.2.2 := Nat.mod_eq_of_lt (by simp only [t]; omega)
    simp only [ht]
    refine ⟨?_, ?_, ?_⟩
    · intro m hm
      obtain rfl | hm := List.mem_cons.mp hm
      · exact hb
      · exact hmod m hm
    · simp only [List.length_cons, next]
      omega
    · intro R2 hR
      obtain _ | ⟨hr, hR⟩ := hR
      rename_i r2 R2
      simp only [unpairs]
      set r := (t.1.2.1 + t.1.1 * r2) % 2 ^ 32 with hrdef
      have hlt : r < 2 ^ 32 := Nat.mod_lt _ (by decide)
      have hdiv : r / m0 ≤ r := Nat.div_le_self _ _
      rw [uint32DivmodUint14_eq hlt h0.1 h0.2, uint32ModUint14_eq (by omega) h1.1 h1.2]
      exact .cons (Nat.mod_lt _ h0.1) (.cons (Nat.mod_lt _ h1.1) (hun R2 hR))
  | case2 S M hne =>
    match M, hne with
    | [], _ => exact ⟨h, by simp, fun R2 hR => hR⟩
    | [x], _ => exact ⟨h, by simp, fun R2 hR => hR⟩
    | m0 :: m1 :: M, hne => exact absurd rfl (hne m0 m1 M)

theorem decodeLast_lt (S : Bytes) {m : ℕ} (h0 : 0 < m) (hm : m < 2 ^ 14) : decodeLast S m < m := by
  have hb0 := (S.getD 0 0).toNat_lt
  have hb1 := (S.getD 1 0).toNat_lt
  rw [decodeLast, byteAt, byteAt, Nat.shiftLeft_eq]
  split
  · omega
  split
  · rw [uint32ModUint14_eq (by omega) h0 hm]
    exact Nat.mod_lt _ h0
  · rw [uint32ModUint14_eq (by omega) h0 hm]
    exact Nat.mod_lt _ h0

theorem decodeN_lt {n : ℕ} (hn : l.length ≤ n) (h : Moduli l) (S : Bytes) :
    List.Forall₂ (· < ·) (decodeN n S l) l := by
  induction n generalizing l S with
  | zero =>
    rw [List.length_eq_zero_iff.mp (Nat.le_zero.mp hn)]
    exact .nil
  | succ n ih =>
    match l, hn, h with
    | [], _, _ => exact .nil
    | [m], _, h =>
      obtain ⟨h0, hm⟩ := h m (by simp)
      exact .cons (decodeLast_lt S h0 hm) .nil
    | m0 :: m1 :: M, hn, h =>
      obtain ⟨hmod, hlen, hun⟩ := bottoms_moduli S h
      simp only [List.length_cons] at hn hlen
      exact hun _ (ih (by omega) hmod _)

end

/-- `Decode` takes `Encode` back, whatever bytes follow, and of bytes that nothing encoded it makes residues too. -/
theorem codec_exact {l : List (ℕ × ℕ)} (h : Residues l) {M : List ℕ} (hM : Moduli M) (rest S : Bytes) :
    decode (encode l ++ rest) (l.map Prod.snd) = l.map Prod.fst ∧ List.Forall₂ (· < ·) (decode S M) M := by
  exact ⟨decode_encode h rest, decodeN_lt le_rfl hM S⟩

theorem codec_exact_three : decode (encode [(4590, 4591), (2, 3), (1000, 1531)] ++ [7]) [4591, 3, 1531] = [4590, 2, 1000] ∧
    List.Forall₂ (· < ·) (decode [255, 255] [4591, 3]) [4591, 3] :=
  codec_exact (l := [(4590, 4591), (2, 3), (1000, 1531)]) (by unfold Residues; decide) (by unfold Moduli; decide) [7]
    [255, 255]

def smallBytes : ℕ := (p + 3) / 4
def rqBytes : ℕ := 1158
def roundedBytes : ℕ := 1007

def uint8 (x : ℤ) : UInt8 := UInt8.ofNat (x % 2 ^ 8).toNat

def smallEncode (f : ℕ → ℤ) : Bytes :=
  (List.range (p / 4)).map (fun i =>
    uint8 (f (4 * i) + 1 + (f (4 * i + 1) + 1) * 2 ^ 2 + (f (4 * i + 2) + 1) * 2 ^ 4 + (f (4 * i + 3) + 1) * 2 ^ 6)) ++
  [uint8 (f (4 * (p / 4)) + 1)]

def smallDecode (s : Bytes) (i : ℕ) : ℤ := ((byteAt s (i / 4) >>> (2 * (i % 4)) &&& 3 : ℕ) : ℤ) - 1

def rqEncode (r : ℕ → ℤ) : Bytes := encode ((List.range p).map fun i => (uint16 (r i + q12), q))

def rqDecode (s : Bytes) (i : ℕ) : ℤ := int16 ((decode s (List.replicate p q)).getD i 0) - q12

def roundedEncode (r : ℕ → ℤ) : Bytes :=
  encode ((List.range p).map fun i => (uint16 (((r i + q12) * 10923) >>> (15 : ℕ)), (q + 2) / 3))

def roundedDecode (s : Bytes) (i : ℕ) : ℤ := int16 ((decode s (List.replicate p ((q + 2) / 3))).getD i 0 * 3 - q12)

section

variable {f r : ℕ → ℤ}

/-- The coefficients of a small polynomial. -/
def IsSmall (f : ℕ → ℤ) : Prop := ∀ i < p, -1 ≤ f i ∧ f i ≤ 1

/-- Representatives modulo `q`. -/
def IsFq (r : ℕ → ℤ) : Prop := ∀ i < p, -(q12 : ℤ) ≤ r i ∧ r i ≤ q12

def IsRounded (r : ℕ → ℤ) : Prop := IsFq r ∧ ∀ i < p, 3 ∣ r i

@[simp] theorem smallEncode_length (f : ℕ → ℤ) : (smallEncode f).length = smallBytes := by
  simp only [smallEncode, List.length_append, List.length_map, List.length_range, List.length_singleton]
  rfl

theorem and_three (n : ℕ) : n &&& 3 = n % 4 := Nat.and_two_pow_sub_one_eq_mod n 2

theorem smallDecode_smallEncode (hf : IsSmall f) (rest : Bytes) {i : ℕ} (hi : i < p) :
    smallDecode (smallEncode f ++ rest) i = f i := by
  have hp : p = 761 := rfl
  rw [smallDecode, and_three, Nat.shiftRight_eq_div_pow, byteAt, List.getD_eq_getElem?_getD,
    List.getElem?_append_left (by rw [smallEncode_length, smallBytes]; omega), smallEncode]
  by_cases h : i / 4 < p / 4
  · have h0 := hf (4 * (i / 4)) (by omega)
    have h1 := hf (4 * (i / 4) + 1) (by omega)
    have h2 := hf (4 * (i / 4) + 2) (by omega)
    have h3 := hf (4 * (i / 4) + 3) (by omega)
    rw [List.getElem?_append_left (by simpa using h), List.getElem?_map, List.getElem?_range h, Option.map_some,
      Option.getD_some, uint8, UInt8.toNat_ofNat']
    have hcases : i % 4 = 0 ∨ i % 4 = 1 ∨ i % 4 = 2 ∨ i % 4 = 3 := by omega
    obtain hm | hm | hm | hm := hcases
    · rw [hm, show f i = f (4 * (i / 4)) by congr 1; omega]
      omega
    · rw [hm, show f i = f (4 * (i / 4) + 1) by congr 1; omega]
      omega
    · rw [hm, show f i = f (4 * (i / 4) + 2) by congr 1; omega]
      omega
    · rw [hm, show f i = f (4 * (i / 4) + 3) by congr 1; omega]
      omega
  · have h0 := hf i hi
    obtain rfl : i = 4 * (p / 4) := by omega
    rw [List.getElem?_append_right (by simp)]
    simp only [List.length_map, List.length_range, Nat.mul_div_cancel_left _ (show 0 < 4 by decide), Nat.sub_self,
      List.getElem?_cons_zero, Option.getD_some, uint8, UInt8.toNat_ofNat', Nat.mul_mod_right]
    omega

theorem decode_getD {M : ℕ} {x : ℕ → ℕ} (hM : M < 2 ^ 14) (hx : ∀ i < p, x i < M) (rest : Bytes) {i : ℕ}
    (hi : i < p) :
    (decode (encode ((List.range p).map fun i => (x i, M)) ++ rest) (List.replicate p M)).getD i 0 = x i := by
  have h : Residues ((List.range p).map fun i => (x i, M)) := by
    intro y hy
    obtain ⟨j, hj, rfl⟩ := List.mem_map.mp hy
    exact ⟨hx j (List.mem_range.mp hj), hM⟩
  have hrep : List.replicate p M = ((List.range p).map fun i => (x i, M)).map Prod.snd := by
    rw [List.map_map]
    exact (List.eq_replicate_iff.mpr ⟨by simp, by simp⟩).symm
  rw [hrep, decode_encode h, List.map_map, List.getD_eq_getElem?_getD, List.getElem?_map, List.getElem?_range hi]
  rfl

theorem rqDecode_rqEncode (hr : IsFq r) (rest : Bytes) {i : ℕ} (hi : i < p) :
    rqDecode (rqEncode r ++ rest) i = r i := by
  have hq12 : q12 = 2295 := rfl
  have hx : ∀ i < p, uint16 (r i + q12) < q := by
    intro i hi
    have h := hr i hi
    rw [uint16, q]
    omega
  rw [rqDecode, rqEncode, decode_getD (by decide) hx rest hi, int16, uint16]
  have h := hr i hi
  omega

theorem roundedDecode_roundedEncode (hr : IsRounded r) (rest : Bytes) {i : ℕ} (hi : i < p) :
    roundedDecode (roundedEncode r ++ rest) i = r i := by
  have hq12 : q12 = 2295 := rfl
  have hthird : ∀ i < p, ((r i + q12) * 10923) >>> (15 : ℕ) = r i / 3 + 765 := by
    intro i hi
    have h := hr.1 i hi
    have h3 := hr.2 i hi
    rw [Int.shiftRight_eq_div_pow]
    omega
  have hx : ∀ i < p, uint16 (((r i + q12) * 10923) >>> (15 : ℕ)) < (q + 2) / 3 := by
    intro i hi
    have h := hr.1 i hi
    rw [hthird i hi, uint16, q]
    omega
  rw [roundedDecode, roundedEncode, decode_getD (by decide) hx rest hi, hthird i hi, int16, uint16]
  have h := hr.1 i hi
  have h3 := hr.2 i hi
  omega

/-! The number of bytes does not depend on the residues. -/

theorem shed_length (n r r' m : ℕ) :
    (shed n r m).1.length = (shed n r' m).1.length ∧ (shed n r m).2.2 = (shed n r' m).2.2 := by
  induction n generalizing r r' m with
  | zero => exact ⟨rfl, rfl⟩
  | succ n ih =>
    simp only [shed]
    split
    · obtain ⟨h1, h2⟩ := ih (r >>> 8) (r' >>> 8) ((m + 255) >>> 8)
      exact ⟨by simp only [List.length_cons, h1], h2⟩
    · exact ⟨rfl, rfl⟩

theorem encodeLast_length (n r r' m : ℕ) : (encodeLast n r m).length = (encodeLast n r' m).length := by
  induction n generalizing r r' m with
  | zero => rfl
  | succ n ih =>
    simp only [encodeLast]
    split
    · simp only [List.length_cons, ih (r >>> 8) (r' >>> 8) ((m + 255) >>> 8)]
    · rfl

theorem encodePairs_length {l l' : List (ℕ × ℕ)} (h : l.map Prod.snd = l'.map Prod.snd) :
    (encodePairs l).1.length = (encodePairs l').1.length ∧
      (encodePairs l).2.map Prod.snd = (encodePairs l').2.map Prod.snd := by
  induction l using encodePairs.induct generalizing l' with
  | case1 r0 m0 r1 m1 l ih =>
    obtain _ | ⟨⟨r0', m0'⟩, _ | ⟨⟨r1', m1'⟩, l'⟩⟩ := l'
    · simp at h
    · simp at h
    simp only [List.map_cons, List.cons.injEq] at h
    obtain ⟨rfl, rfl, hl⟩ := h
    obtain ⟨h1, h2⟩ := ih hl
    obtain ⟨h3, h4⟩ := shed_length 4 ((r0 + r1 * m0) % 2 ^ 32) ((r0' + r1' * m0) % 2 ^ 32) (m1 * m0 % 2 ^ 32)
    simp only [encodePairs, List.length_append, List.map_cons, h1, h2, h3, h4]
    trivial
  | case2 l hne =>
    obtain _ | ⟨x, _ | ⟨y, l⟩⟩ := l
    · obtain rfl : l' = [] := by simpa using h.symm
      exact ⟨rfl, rfl⟩
    · obtain ⟨x', rfl⟩ : ∃ x', l' = [x'] := by
        rw [← List.length_eq_one_iff]
        simpa using (congrArg List.length h).symm
      exact ⟨rfl, h⟩
    · exact absurd rfl (hne x.1 x.2 y.1 y.2 l)

theorem encodeN_length {n : ℕ} {l l' : List (ℕ × ℕ)} (h : l.map Prod.snd = l'.map Prod.snd) :
    (encodeN n l).length = (encodeN n l').length := by
  induction n generalizing l l' with
  | zero => rfl
  | succ n ih =>
    have hlen := congrArg List.length h
    simp only [List.length_map] at hlen
    match l, l', h, hlen with
    | [], [], _, _ => rfl
    | [(r, m)], [(r', m')], h, _ =>
      obtain rfl : m = m' := by simpa using h
      exact encodeLast_length 4 r r' m
    | x :: y :: l, x' :: y' :: l', h, _ =>
      obtain ⟨h1, h2⟩ := encodePairs_length h
      simp only [encodeN, List.length_append, h1, ih h2]

theorem encode_length (x : ℕ → ℕ) (M : ℕ) :
    (encode ((List.range p).map fun i => (x i, M))).length = (encode (List.replicate p (0, M))).length := by
  rw [encode, encode, List.length_map, List.length_range, List.length_replicate]
  apply encodeN_length
  rw [List.map_replicate, List.map_map]
  exact List.eq_replicate_iff.mpr ⟨by simp, by simp⟩

@[simp] theorem rqEncode_length (r : ℕ → ℤ) : (rqEncode r).length = rqBytes := by
  rw [rqEncode, encode_length]
  decide +kernel

@[simp] theorem roundedEncode_length (r : ℕ → ℤ) : (roundedEncode r).length = roundedBytes := by
  rw [roundedEncode, encode_length]
  decide +kernel

end

end TkTox.Sntrup
