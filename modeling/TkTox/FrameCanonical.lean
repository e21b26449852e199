import TkTox.FrameCodec
import TkTox.Instance

/-!
With a canonical AEAD the frame codec is exact: decoding accepts what encoding produces and
nothing else.
-/

namespace TkTox

variable {C : Crypto} {b pt : Bytes} {d : TTFrameDesc} {key : Key}

/-- A cipher the host has opens exactly what it seals. -/
structure Crypto.AeadCanonical (C : Crypto) : Prop where
  encrypt_length : ∀ c k n ad pt, (C.aeadEncrypt c k n ad pt).length = pt.length + 16
  decrypt_iff : ∀ c k n ad pt ct, (c = .aesgcm → C.gcmIsAvailable = true) →
    (C.aeadDecrypt c k n ad ct = some pt ↔ ct = C.aeadEncrypt c k n ad pt)

theorem ttAeadOpen_iff_seal (hC : C.AeadCanonical) (c : TTCipher) (key : Key)
    (nonce ad pt ct : Bytes) :
    ttAeadOpen C c key nonce ad ct = some pt ↔ ttAeadSeal C c key nonce ad pt = some ct := by
  unfold ttAeadOpen ttAeadSeal
  by_cases hg : c = .aesgcm ∧ ttAeadGcmAvailable C = false
  · simp only [if_pos hg, ite_self, reduceCtorEq]
  have hav : c = .aesgcm → C.gcmIsAvailable = true := by
    intro h
    by_contra hn
    exact hg ⟨h, by simpa [ttAeadGcmAvailable] using hn⟩
  have hlen := hC.encrypt_length c key nonce ad pt
  have hiff := hC.decrypt_iff c key nonce ad pt ct hav
  simp only [if_neg hg, ttMac16, if_pos hlen, Option.some.injEq]
  constructor
  · intro h
    split_ifs at h
    exact (hiff.mp h).symm
  · rintro rfl
    rw [if_neg (by omega)]
    exact hiff.mpr rfl

theorem TTFrameType.toByte_of_ofByte {x : UInt8} {t : TTFrameType} (h : ofByte x = some t) :
    t.toByte = x := by
  unfold ofByte at h
  split_ifs at h <;> cases h <;> simp_all [toByte]

theorem exists_seven {b : Bytes} (h : 7 ≤ b.length) : ∃ x0 x1 x2 x3 x4 x5 x6 rest,
    b = x0 :: x1 :: x2 :: x3 :: x4 :: x5 :: x6 :: rest := by
  match b, h with
  | x0 :: x1 :: x2 :: x3 :: x4 :: x5 :: x6 :: rest, _ => exact ⟨_, _, _, _, _, _, _, _, rfl⟩

theorem frameHead_of_spec (h : PeekSpec b d) {t : TTFrameType} (ht : d.type = some t) :
    frameHead t d.seq d.flags d.nonce d.hdr = b.take (11 + d.nonce.length + 2 + d.hdr.length) := by
  have hge := h.length_ge
  have hoff := h.off_le
  simp only [ttNonce12, ttMac16] at hge hoff
  obtain ⟨x0, x1, x2, x3, x4, x5, x6, rest, rfl⟩ := exists_seven (b := b) (by omega)
  have hmagic : [x0, x1, x2, x3] = frameMagic := h.magic
  have hver : x4 = ttFrameVer := h.ver
  have htype : t.toByte = x5 := TTFrameType.toByte_of_ofByte (h.type_eq.symm.trans ht)
  have hflags : d.flags = x6 := h.flags_eq
  have hlen : (x0 :: x1 :: x2 :: x3 :: x4 :: x5 :: x6 :: rest).length = rest.length + 7 := rfl
  rw [hlen] at hge hoff
  have hseq : u32be d.seq = rest.take 4 := by
    rw [h.seq_eq]
    exact u32be_readU32 (b := rest) (by omega)
  have hnonce : d.nonce = (rest.drop 4).take d.nonce.length := h.nonce_eq
  have hhl : d.hdr.length = readU16 ((rest.drop 4).drop d.nonce.length) := by
    rw [h.hdr_length, List.drop_drop]
    congr 1
    rw [show 11 + d.nonce.length = (4 + d.nonce.length) + 7 by omega]
    rfl
  have hhdr : d.hdr = (((rest.drop 4).drop d.nonce.length).drop 2).take d.hdr.length := by
    rw [List.drop_drop, List.drop_drop]
    have he := h.hdr_eq
    rw [show 11 + d.nonce.length + 2 = (4 + d.nonce.length + 2) + 7 by omega] at he
    exact he
  have hu16 : u16be d.hdr.length = ((rest.drop 4).drop d.nonce.length).take 2 := by
    rw [hhl]
    exact u16be_readU16 (by rw [List.length_drop, List.length_drop]; omega)
  have htake (l : Bytes) (m n : ℕ) : l.take m ++ (l.drop m).take n = l.take (m + n) :=
    List.take_add.symm
  have hrest : u32be d.seq ++ (d.nonce ++ (u16be d.hdr.length ++ d.hdr)) =
      rest.take (4 + (d.nonce.length + (2 + d.hdr.length))) := by
    have h1 : u16be d.hdr.length ++ d.hdr =
        ((rest.drop 4).drop d.nonce.length).take (2 + d.hdr.length) := by
      have ht := htake ((rest.drop 4).drop d.nonce.length) 2 d.hdr.length
      rw [← hu16, ← hhdr] at ht
      exact ht
    have h2 : d.nonce ++ ((rest.drop 4).drop d.nonce.length).take (2 + d.hdr.length) =
        (rest.drop 4).take (d.nonce.length + (2 + d.hdr.length)) := by
      have ht := htake (rest.drop 4) d.nonce.length (2 + d.hdr.length)
      rw [← hnonce] at ht
      exact ht
    rw [h1, h2, hseq, htake]
  rw [frameHead, ← hmagic, ← hver, htype, hflags]
  rw [show 11 + d.nonce.length + 2 + d.hdr.length =
    (4 + (d.nonce.length + (2 + d.hdr.length))) + 7 by omega]
  simp only [List.append_assoc, List.cons_append, List.nil_append, List.take_succ_cons]
  rw [← hrest]

theorem nonce_take (h : PeekSpec b d) :
    (Blob.read 24 d.nonce : Nonce).bytes.take (frameNonceLen d.flags) = d.nonce := by
  have hle := frameNonceLen_le d.flags
  change ((d.nonce ++ List.replicate 24 0).take 24).take (frameNonceLen d.flags) = d.nonce
  rw [List.take_take, Nat.min_eq_left hle, ← h.nonce_length, List.take_left]

theorem ttFrameEncode_of_decode (hC : C.AeadCanonical) {cap : ℕ}
    (h : ttFrameDecode C b key cap = some (d, pt)) {t : TTFrameType} (ht : d.type = some t)
    {nonce : Nonce} (hn : nonce.bytes.take (frameNonceLen d.flags) = d.nonce) :
    ttFrameEncode C ttFrameMax t d.seq d.flags key nonce d.hdr pt = some b ∧ d.ptLen = pt.length := by
  have hp : ttFramePeek b = some d := ttFrameDecode_isSome_peek h
  have hspec := ttFramePeek_spec hp
  have hhead := frameHead_of_spec hspec ht
  rw [ttFrameDecode_of_peek hp] at h
  split_ifs at h with he hc
  obtain ⟨pt', hopen, heq⟩ := Option.map_eq_some_iff.mp h
  cases heq
  rw [not_not, ht] at he
  rw [← hhead, ttAeadOpen_iff_seal hC] at hopen
  have hlen := ttAeadSeal_length hopen
  have hoff := hspec.off_le
  have hmax := hspec.length_le
  have hpt := hspec.ptLen_eq
  have hnl := hspec.nonce_length
  simp only [List.length_drop, ttMac16, ttFrameMax] at hlen hoff hmax hpt
  refine ⟨?_, by omega⟩
  simp only [ttFrameEncode, hspec.reserved, he, ne_eq, not_true_eq_false, ↓reduceIte, hn,
    ttFrameMax, ttMac16]
  rw [if_neg (by omega), if_neg (by omega), hopen, Option.map_some, hhead, List.take_append_drop]

theorem ttFrameDecode_ptLen_le {cap : ℕ} (h : ttFrameDecode C b key cap = some (d, pt)) : d.ptLen ≤ cap := by
  rw [ttFrameDecode_of_peek (ttFrameDecode_isSome_peek h)] at h
  split_ifs at h with he hc
  obtain ⟨pt', -, heq⟩ := Option.map_eq_some_iff.mp h
  cases heq
  exact not_lt.mp hc

/-- Decoding succeeds with these fields exactly when encoding them gives back the bytes and the
text has room; every decoded frame has such fields, and the structural parse agrees with it. -/
theorem frame_decode_iff_encode (hC : C.AeadCanonical) (key : Key) (b : Bytes) (ptCap : ℕ) :
    (∀ (type : TTFrameType) (flags : UInt8) (seq : UInt32) (nonce : Nonce) (hdr pt : Bytes),
      ttFrameDecode C b key ptCap = some (⟨some type, flags, seq.toNat,
          nonce.bytes.take (frameNonceLen flags), hdr, pt.length⟩, pt) ↔
        ttFrameEncode C ttFrameMax type seq.toNat flags key nonce hdr pt = some b ∧ pt.length ≤ ptCap) ∧
    (∀ d pt, ttFrameDecode C b key ptCap = some (d, pt) → ttFramePeek b = some d ∧
      ∃ (type : TTFrameType) (seq : UInt32) (nonce : Nonce), d = ⟨some type, d.flags, seq.toNat,
        nonce.bytes.take (frameNonceLen d.flags), d.hdr, pt.length⟩) := by
  constructor
  · intro type flags seq nonce hdr pt
    constructor
    · intro h
      exact ⟨(ttFrameEncode_of_decode hC h rfl rfl).1, ttFrameDecode_ptLen_le h⟩
    · rintro ⟨h, hle⟩
      have hlt : seq.toNat < 2 ^ 32 := seq.toNat_lt
      exact ttFrameDecode_of_open hlt h hle fun ad ct hs =>
        (ttAeadOpen_iff_seal hC _ _ _ _ _ _).mpr hs
  · intro d pt h
    have hp : ttFramePeek b = some d := ttFrameDecode_isSome_peek h
    have hspec := ttFramePeek_spec hp
    obtain ⟨t, ht⟩ := Option.isSome_iff_exists.mp (ttFrameDecode_type_isSome h)
    have hlen := (ttFrameEncode_of_decode hC h ht (nonce_take hspec)).2
    have hseq : (UInt32.ofNat d.seq).toNat = d.seq := by
      have hlt := readU32_lt (b.drop 7)
      rw [← hspec.seq_eq] at hlt
      exact UInt32.toNat_ofNat_of_lt hlt
    refine ⟨hp, t, UInt32.ofNat d.seq, Blob.read 24 d.nonce, ?_⟩
    rw [hseq, nonce_take hspec, ← hlen, ← ht]

namespace Instance

theorem aeadCanonical : crypto.AeadCanonical where
  encrypt_length c k n ad pt := aeadCorrect.encrypt_length c k n ad pt
  decrypt_iff c k n ad pt ct _ := by
    constructor
    · intro h
      change decrypt k ct = some pt at h
      unfold decrypt at h
      split_ifs at h with ht
      cases h
      change ct = ct.take (ct.length - 16) ++ k.bytes.take 16
      rw [← ht, List.take_append_drop]
    · rintro rfl
      exact aeadCorrect.decrypt_encrypt c k n ad pt

def hiFrame : Bytes :=
  (ttFrameEncode crypto ttFrameMax .data 7 0 aliceSk (draws 1).nonce [] [104, 105]).getD []

end Instance

theorem frame_decode_iff_encode_hi :
    ttFrameEncode Instance.crypto ttFrameMax .data 7 0 Instance.aliceSk (Instance.draws 1).nonce []
        [104, 105] = some Instance.hiFrame ∧
      ttFrameDecode Instance.crypto Instance.hiFrame Instance.aliceSk 2 =
        some (⟨some .data, 0, 7, (Instance.draws 1).nonce.bytes.take (frameNonceLen 0), [], 2⟩,
          [104, 105]) := by
  have henc : ttFrameEncode Instance.crypto ttFrameMax .data 7 0 Instance.aliceSk
      (Instance.draws 1).nonce [] [104, 105] = some Instance.hiFrame := by decide +kernel
  refine ⟨henc, ?_⟩
  have h := frame_decode_iff_encode Instance.aeadCanonical Instance.aliceSk Instance.hiFrame 2
  exact (h.1 .data 0 7 (Instance.draws 1).nonce [] [104, 105]).mpr ⟨henc, le_rfl⟩

end TkTox
