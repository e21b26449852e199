import TkTox.SntrupDraws
import TkTox.SntrupField

/-!
The key encapsulation of `sntrup761.c` over SHA-512: what a key pair's public part encapsulated, its secret
part decapsulates. Random draws are arguments.
-/

namespace TkTox.Sntrup

-- `gs` are the draws of `Small_random`, as many as there are, `f` the one of `Short_random`
def keyGen : List (ℕ → ℤ) → (ℕ → ℤ) → Option ((ℕ → ℤ) × (ℕ → ℤ) × (ℕ → ℤ))
  | [], _ => none
  | g :: gs, f =>
    if (r3Recip g).1 = 0 then some (rqMultSmall (rqRecip3 f).2 g, f, (r3Recip g).2) else keyGen gs f

def zKeyGen (gs : List (ℕ → ℤ)) (f : ℕ → ℤ) : Option (Bytes × Bytes) :=
  (keyGen gs f).map fun k => (rqEncode k.1, smallEncode k.2.1 ++ smallEncode k.2.2)

def zEncrypt (r : ℕ → ℤ) (pk : Bytes) : Bytes := roundedEncode (encrypt r (rqDecode pk))

def zDecrypt (C sk : Bytes) : ℕ → ℤ := decrypt (roundedDecode C) (smallDecode sk) (smallDecode (sk.drop smallBytes))

variable (sha512 : Bytes → Blob 64)

def hashPrefix (b : UInt8) (x : Bytes) : Bytes := (sha512 (b :: x)).bytes.take 32

def hashConfirm (r cache : Bytes) : Bytes := hashPrefix sha512 2 (hashPrefix sha512 3 r ++ cache)

def hashSession (b : UInt8) (y z : Bytes) : Bytes := hashPrefix sha512 b (hashPrefix sha512 3 y ++ z)

def keypair (gs : List (ℕ → ℤ)) (f : ℕ → ℤ) (rho : Bytes) : Option (Bytes × Bytes) :=
  (zKeyGen gs f).map fun k => (k.1, k.2 ++ k.1 ++ rho ++ hashPrefix sha512 4 k.1)

def hide (r : ℕ → ℤ) (pk cache : Bytes) : Bytes × Bytes :=
  let rEnc := smallEncode r
  (zEncrypt r pk ++ hashConfirm sha512 rEnc cache, rEnc)

def enc (r : ℕ → ℤ) (pk : Bytes) : Bytes × Bytes :=
  let cache := hashPrefix sha512 4 pk
  let c := hide sha512 r pk cache
  (c.1, hashSession sha512 1 c.2 c.1)

def ciphertextsDiffMask (c c2 : Bytes) : ℤ :=
  let differentbits : ℕ := (List.zipWith (· ^^^ ·) c c2).foldl (fun d x => d ||| x.toNat) 0
  and32 1 (((differentbits : ℤ) - 1) >>> (8 : ℕ)) - 1

def dec (c sk : Bytes) : Bytes :=
  let pk := (sk.drop (2 * smallBytes)).take rqBytes
  let rho := (sk.drop (2 * smallBytes + rqBytes)).take smallBytes
  let cache := (sk.drop (2 * smallBytes + rqBytes + smallBytes)).take 32
  let r := zDecrypt c sk
  let cnew := hide sha512 r pk cache
  let mask := ciphertextsDiffMask c cnew.1
  let rEnc := List.zipWith (fun x y => x ^^^ (uint8 mask &&& (x ^^^ y))) cnew.2 rho
  hashSession sha512 (uint8 (1 + mask)) rEnc c

section

variable {gs : List (ℕ → ℤ)} {f g h r ginv : ℕ → ℤ}

theorem IsShort.ne_zero (hf : IsShort f) : ∃ i < p, f i ≠ 0 := by
  by_contra hne
  push Not at hne
  have hsum : ∑ i ∈ Finset.range p, |f i| = 0 :=
    Finset.sum_eq_zero fun i hi => by rw [hne i (Finset.mem_range.mp hi), abs_zero]
  have hw : (w : ℤ) = 286 := rfl
  rw [hf.2] at hsum
  omega

theorem keyGen_isKey (hg : ∀ g ∈ gs, IsSmall g) (hf : IsShort f) {k : (ℕ → ℤ) × (ℕ → ℤ) × (ℕ → ℤ)}
    (hk : keyGen gs f = some k) : k.2.1 = f ∧ ∃ g, IsKey k.1 f g k.2.2 := by
  induction gs with
  | nil => cases hk
  | cons g gs ih =>
    rw [keyGen] at hk
    split at hk
    · rename_i hret
      obtain rfl := Option.some.inj hk
      have hgs := hg g (by simp)
      obtain ⟨hv, -, -, hinv⟩ := r3Recip_eq hgs
      obtain ⟨hfq, -⟩ := rqRecip3_eq hf.1
      obtain ⟨-, hrecip⟩ := rqRecip3_ok hf.1 hf.ne_zero
      obtain ⟨hh, hmul⟩ := rqMultSmall_modp hfq hgs
      dsimp only
      refine ⟨rfl, g, hh, hf, hgs, hv, ?_, hinv hret⟩
      rw [hmul]
      linear_combination modp q g * hrecip
    · exact ih (fun g hg' => hg g (by simp [hg'])) hk

theorem IsKey.congr (hk : IsKey h f g ginv) {h' f' ginv' : ℕ → ℤ} (hh : ∀ i < p, h' i = h i)
    (hf : ∀ i < p, f' i = f i) (hv : ∀ i < p, ginv' i = ginv i) : IsKey h' f' g ginv' where
  isFq i hi := by rw [hh i hi]; exact hk.isFq i hi
  isShort := hk.isShort.congr hf
  isSmall := hk.isSmall
  ginvSmall i hi := by rw [hv i hi]; exact hk.ginvSmall i hi
  encap := by
    rw [modp_congr fun i hi => congrArg _ (hh i hi), modp_congr fun i hi => congrArg _ (hf i hi)]
    exact hk.encap
  decap := by
    rw [modp_congr fun i hi => congrArg _ (hv i hi)]
    exact hk.decap

theorem IsKey.decoded (hk : IsKey h f g ginv) (rest : Bytes) :
    IsKey (rqDecode (rqEncode h)) (smallDecode (smallEncode f ++ smallEncode ginv ++ rest)) g
      (smallDecode ((smallEncode f ++ smallEncode ginv ++ rest).drop smallBytes)) := by
  apply hk.congr
  · intro i hi
    rw [← List.append_nil (rqEncode h), rqDecode_rqEncode hk.isFq [] hi]
  · intro i hi
    rw [List.append_assoc, smallDecode_smallEncode hk.isShort.1 _ hi]
  · intro i hi
    rw [List.append_assoc, List.drop_left' (smallEncode_length f), smallDecode_smallEncode hk.ginvSmall _ hi]

theorem zDecrypt_zEncrypt (hk : IsKey h f g ginv) (hr : IsShort r) (tail rest : Bytes) {i : ℕ} (hi : i < p) :
    zDecrypt (zEncrypt r (rqEncode h) ++ tail) (smallEncode f ++ smallEncode ginv ++ rest) i = r i := by
  have hk' := hk.decoded rest
  obtain ⟨hround, m, hm, hmod⟩ := encrypt_modp hk'.isFq hr.1
  have hdec : ∀ i < p, roundedDecode (zEncrypt r (rqEncode h) ++ tail) i = encrypt r (rqDecode (rqEncode h)) i :=
    fun i hi => roundedDecode_roundedEncode hround tail hi
  refine decrypt_noisy hk' hr hm ?_ ?_ hi
  · intro i hi
    rw [hdec i hi]
    exact hround.1 i hi
  · rw [modp_congr fun i hi => congrArg _ (hdec i hi), hmod]

end

section

variable {gs : List (ℕ → ℤ)} {f h r r' : ℕ → ℤ} {rho : Bytes}

theorem smallEncode_congr (hr : ∀ i < p, r i = r' i) : smallEncode r = smallEncode r' := by
  have hp : p = 761 := rfl
  rw [smallEncode, smallEncode, hr (4 * (p / 4)) (by omega)]
  congr 1
  apply List.map_congr_left
  intro i hi
  rw [List.mem_range] at hi
  rw [hr (4 * i) (by omega), hr (4 * i + 1) (by omega), hr (4 * i + 2) (by omega), hr (4 * i + 3) (by omega)]

theorem encrypt_congr (hh : IsFq h) (hr : IsSmall r) (hr' : IsSmall r') (heq : ∀ i < p, r i = r' i) {i : ℕ}
    (hi : i < p) : encrypt r h i = encrypt r' h i := by
  obtain ⟨h1, h2⟩ := rqMultSmall_modp hh hr
  obtain ⟨h3, h4⟩ := rqMultSmall_modp hh hr'
  have hmod : modp q (rqMultSmall h r) = modp q (rqMultSmall h r') := by
    rw [h2, h4, modp_congr fun i hi => congrArg _ (heq i hi)]
  have hmul := eq_of_cast_q (h1.abs_le_q12 hi) (h3.abs_le_q12 hi) (modp_inj hmod i hi)
  rw [encrypt, encrypt, round, round, hmul]

theorem zEncrypt_congr {pk : Bytes} (hh : IsFq (rqDecode pk)) (hr : IsSmall r) (hr' : IsSmall r')
    (heq : ∀ i < p, r i = r' i) : zEncrypt r pk = zEncrypt r' pk := by
  rw [zEncrypt, zEncrypt, roundedEncode, roundedEncode]
  refine congrArg encode (List.map_congr_left fun i hi => ?_)
  rw [encrypt_congr hh hr hr' heq (List.mem_range.mp hi)]

theorem zEncrypt_length (r : ℕ → ℤ) (pk : Bytes) : (zEncrypt r pk).length = roundedBytes := roundedEncode_length _

theorem enc_congr {pk : Bytes} (hh : IsFq (rqDecode pk)) (hr : IsSmall r) (hr' : IsSmall r')
    (heq : ∀ i < p, r i = r' i) : enc sha512 r pk = enc sha512 r' pk := by
  rw [enc, enc, hide, hide, smallEncode_congr heq, zEncrypt_congr hh hr hr' heq]

theorem foldl_or (l : Bytes) (d : ℕ) (hd : d < 2 ^ 8) : l.foldl (fun d x => d ||| x.toNat) d < 2 ^ 8 ∧
    (l.foldl (fun d x => d ||| x.toNat) d = 0 ↔ d = 0 ∧ ∀ x ∈ l, x = 0) := by
  induction l generalizing d with
  | nil => simpa using hd
  | cons x l ih =>
    obtain ⟨h1, h2⟩ := ih (d ||| x.toNat) (Nat.or_lt_two_pow hd x.toNat_lt)
    rw [List.foldl_cons]
    refine ⟨h1, h2.trans ?_⟩
    rw [Nat.or_eq_zero_iff, List.forall_mem_cons, and_assoc, ← UInt8.toNat_inj]
    rfl

theorem zipWith_xor_eq_zero {c c2 : Bytes} (hlen : c.length = c2.length) :
    (∀ x ∈ List.zipWith (· ^^^ ·) c c2, x = 0) ↔ c = c2 := by
  induction c generalizing c2 with
  | nil =>
    obtain rfl : c2 = [] := List.length_eq_zero_iff.mp hlen.symm
    simp
  | cons x c ih =>
    obtain _ | ⟨y, c2⟩ := c2
    · simp at hlen
    · rw [List.zipWith_cons_cons, List.forall_mem_cons, ih (by simpa using hlen), List.cons.injEq, UInt8.xor_eq_zero_iff]

theorem ciphertextsDiffMask_eq {c c2 : Bytes} (hlen : c.length = c2.length) :
    ciphertextsDiffMask c c2 = if c = c2 then 0 else -1 := by
  obtain ⟨hlt, hzero⟩ := foldl_or (List.zipWith (· ^^^ ·) c c2) 0 (by decide)
  rw [ciphertextsDiffMask]
  set d := (List.zipWith (· ^^^ ·) c c2).foldl (fun d x => d ||| x.toNat) 0
  have hiff : d = 0 ↔ c = c2 := by
    rw [hzero, zipWith_xor_eq_zero hlen]
    simp
  by_cases hc : c = c2
  · rw [if_pos hc, hiff.mpr hc]
    rfl
  · have hpos : 0 < d := Nat.pos_of_ne_zero fun h0 => hc (hiff.mp h0)
    have hshift : ((d : ℤ) - 1) >>> (8 : ℕ) = 0 := by
      rw [Int.shiftRight_eq_div_pow]
      omega
    rw [if_neg hc]
    simp only [hshift]
    rfl

theorem select_same {x y : Bytes} (hlen : x.length = y.length) :
    List.zipWith (fun x y => x ^^^ (uint8 0 &&& (x ^^^ y))) x y = x ∧
      List.zipWith (fun x y => x ^^^ (uint8 (-1) &&& (x ^^^ y))) x y = y := by
  have h0 : uint8 0 = 0 := rfl
  have h1 : uint8 (-1) = -1 := rfl
  rw [h0, h1]
  induction x generalizing y with
  | nil =>
    obtain rfl : y = [] := List.length_eq_zero_iff.mp hlen.symm
    exact ⟨rfl, rfl⟩
  | cons a x ih =>
    obtain _ | ⟨b, y⟩ := y
    · simp at hlen
    · obtain ⟨h2, h3⟩ := ih (y := y) (by simpa using hlen)
      rw [List.zipWith_cons_cons, List.zipWith_cons_cons, h2, h3, UInt8.zero_and, UInt8.xor_zero, UInt8.neg_one_and,
        ← UInt8.xor_assoc, UInt8.xor_self, UInt8.zero_xor]
      exact ⟨rfl, rfl⟩

theorem hashPrefix_length (b : UInt8) (x : Bytes) : (hashPrefix sha512 b x).length = 32 := by
  rw [hashPrefix, List.length_take, Blob.bytes_length]
  rfl

theorem roundedDecode_isFq (s : Bytes) : IsFq (roundedDecode s) := by
  intro i hi
  have hM : Moduli (List.replicate p ((q + 2) / 3)) := by
    intro m hm
    rw [(List.mem_replicate.mp hm).2]
    decide
  have hlt := decodeN_lt (List.length_replicate ..).le hM s
  have hlen := hlt.length_eq
  rw [List.length_replicate] at hlen
  have hget := hlt.get (i := i) (by omega) (by rw [List.length_replicate]; exact hi)
  rw [List.get_eq_getElem, List.get_eq_getElem, List.getElem_replicate] at hget
  have hq12 : (q12 : ℤ) = 2295 := rfl
  have hthird : (q + 2) / 3 = 1531 := rfl
  rw [roundedDecode, decode, List.length_replicate, List.getD_eq_getElem?_getD, List.getElem?_eq_getElem (by omega),
    Option.getD_some]
  dsimp only at hget
  rw [int16_eq (by omega) (by omega)]
  omega

theorem dec_eq {z pk c : Bytes} (hz : z.length = 2 * smallBytes) (hpk : pk.length = rqBytes)
    (hrho : rho.length = smallBytes) (hc : c.length = roundedBytes + 32) :
    dec sha512 c (z ++ pk ++ rho ++ hashPrefix sha512 4 pk) =
      if c = (enc sha512 (zDecrypt c (z ++ pk ++ rho ++ hashPrefix sha512 4 pk)) pk).1 then
        (enc sha512 (zDecrypt c (z ++ pk ++ rho ++ hashPrefix sha512 4 pk)) pk).2
      else hashSession sha512 0 rho c := by
  set sk := z ++ pk ++ rho ++ hashPrefix sha512 4 pk with hsk
  have hpk' : (sk.drop (2 * smallBytes)).take rqBytes = pk := by
    rw [hsk, List.append_assoc, List.append_assoc, List.drop_left' hz, List.take_left' hpk]
  have hrho' : (sk.drop (2 * smallBytes + rqBytes)).take smallBytes = rho := by
    rw [hsk, List.append_assoc, List.drop_left' (by rw [List.length_append, hz, hpk]), List.take_left' hrho]
  have hcache : (sk.drop (2 * smallBytes + rqBytes + smallBytes)).take 32 = hashPrefix sha512 4 pk := by
    rw [hsk, List.drop_left' (by rw [List.length_append, List.length_append, hz, hpk, hrho]),
      List.take_of_length_le (hashPrefix_length sha512 4 pk).le]
  have henc : (smallEncode (zDecrypt c sk)).length = rho.length := by rw [smallEncode_length, hrho]
  have hlen : c.length = (enc sha512 (zDecrypt c sk) pk).1.length := by
    rw [enc, hide, List.length_append, zEncrypt_length, hashConfirm, hashPrefix_length, hc]
  have hmask := ciphertextsDiffMask_eq hlen
  obtain ⟨hsame, hother⟩ := select_same henc
  rw [dec, hpk', hrho', hcache]
  change hashSession sha512 (uint8 (1 + ciphertextsDiffMask c (enc sha512 (zDecrypt c sk) pk).1))
    (List.zipWith (fun x y => x ^^^ (uint8 (ciphertextsDiffMask c (enc sha512 (zDecrypt c sk) pk).1) &&& (x ^^^ y)))
      (smallEncode (zDecrypt c sk)) rho) c = _
  rw [hmask]
  by_cases heq : c = (enc sha512 (zDecrypt c sk) pk).1
  · rw [if_pos heq, if_pos heq, hsame]
    exact congrArg (hashSession sha512 1 (smallEncode (zDecrypt c sk))) heq
  · rw [if_neg heq, if_neg heq, hother]
    rfl

/-- The secret part of a key pair decapsulates what the public part encapsulated, and every other ciphertext to the
key of a short message that encapsulates to it or to the rejection key. -/
theorem kem_exact {pk sk : Bytes} (hk : keypair sha512 gs f rho = some (pk, sk)) (hg : ∀ g ∈ gs, IsSmall g)
    (hf : IsShort f) (hrho : rho.length = smallBytes) :
    (∀ r, IsShort r → dec sha512 (enc sha512 r pk).1 sk = (enc sha512 r pk).2) ∧
      ∀ c, c.length = roundedBytes + 32 → ∃ r, IsShort r ∧
        dec sha512 c sk = if c = (enc sha512 r pk).1 then (enc sha512 r pk).2 else hashSession sha512 0 rho c := by
  obtain ⟨⟨pk0, z⟩, hzk, hpair⟩ := Option.map_eq_some_iff.mp hk
  obtain ⟨⟨h, f', v⟩, hgen, hz⟩ := Option.map_eq_some_iff.mp hzk
  obtain ⟨hf', g, hkey⟩ := keyGen_isKey hg hf hgen
  dsimp only at hf' hkey hz hpair
  obtain rfl := hf'
  obtain ⟨rfl, rfl⟩ := Prod.mk.inj hz
  obtain ⟨rfl, rfl⟩ := Prod.mk.inj hpair
  have hzlen : (smallEncode f' ++ smallEncode v).length = 2 * smallBytes := by
    rw [List.length_append, smallEncode_length, smallEncode_length]
    rfl
  have hdec := fun c hc => dec_eq sha512 (c := c) hzlen (rqEncode_length h) hrho hc
  have hrest : smallEncode f' ++ smallEncode v ++ rqEncode h ++ rho ++ hashPrefix sha512 4 (rqEncode h) =
      smallEncode f' ++ smallEncode v ++ (rqEncode h ++ rho ++ hashPrefix sha512 4 (rqEncode h)) := by
    simp only [List.append_assoc]
  have hkey' := hkey.decoded (rqEncode h ++ rho ++ hashPrefix sha512 4 (rqEncode h))
  refine ⟨fun r hr => ?_, fun c hc => ⟨_, ?_, hdec c hc⟩⟩
  · have hback : ∀ i < p, zDecrypt (enc sha512 r (rqEncode h)).1
        (smallEncode f' ++ smallEncode v ++ rqEncode h ++ rho ++ hashPrefix sha512 4 (rqEncode h)) i = r i := by
      intro i hi
      rw [hrest]
      exact zDecrypt_zEncrypt hkey hr _ _ hi
    have hlen : (enc sha512 r (rqEncode h)).1.length = roundedBytes + 32 := by
      rw [enc, hide, List.length_append, zEncrypt_length, hashConfirm, hashPrefix_length]
    have hsmall : IsSmall (zDecrypt (enc sha512 r (rqEncode h)).1
        (smallEncode f' ++ smallEncode v ++ rqEncode h ++ rho ++ hashPrefix sha512 4 (rqEncode h))) :=
      fun i hi => by rw [hback i hi]; exact hr.1 i hi
    rw [hdec _ hlen, enc_congr sha512 hkey'.isFq hsmall hr.1 hback, if_pos rfl]
  · rw [hrest]
    exact decrypt_isShort (roundedDecode_isFq c) hkey'.isShort.1 hkey'.ginvSmall

end

def xDraw (i : ℕ) : Blob 4 := Blob.read 4 (if i = 1 then [0xff, 0xff, 0xff, 0x3f] else [0, 0, 0, 0x20])

def countDraw (i : ℕ) : Blob 4 := Blob.read 4 (u32be i)

theorem smallRandom_xDraw : smallRandom xDraw = fun i => if i = 1 then 1 else 0 := by
  funext i
  rw [smallRandom, xDraw]
  split_ifs <;> rfl

theorem kem_exact_drawn : ∃ pk sk, keypair (Blob.read 64) [smallRandom xDraw] (shortRandom countDraw)
      (List.replicate smallBytes 5) = some (pk, sk) ∧
    dec (Blob.read 64) (enc (Blob.read 64) (shortRandom xDraw) pk).1 sk =
      (enc (Blob.read 64) (shortRandom xDraw) pk).2 := by
  have hret : (r3Recip (smallRandom xDraw)).1 = 0 := by
    rw [(r3Recip_eq (smallRandom_isSmall xDraw)).2.1, smallRandom_xDraw]
    exact isUnit_modp_x 3
  obtain ⟨k, hk⟩ : ∃ k, keypair (Blob.read 64) [smallRandom xDraw] (shortRandom countDraw)
      (List.replicate smallBytes 5) = some k := by
    rw [keypair, zKeyGen, keyGen, if_pos hret]
    exact ⟨_, rfl⟩
  have hg : ∀ g ∈ [smallRandom xDraw], IsSmall g := by
    intro g hg
    rw [List.mem_singleton.mp hg]
    exact smallRandom_isSmall xDraw
  exact ⟨k.1, k.2, hk, (kem_exact _ hk hg (shortFromlist_isShort _) (List.length_replicate ..)).1 _
    (shortFromlist_isShort _)⟩

end TkTox.Sntrup
