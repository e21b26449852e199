import TkTox.Frame

namespace TkTox

variable {C : Crypto}

theorem frameNonceLen_le (flags : UInt8) : frameNonceLen flags ≤ 24 := by
  unfold frameNonceLen
  split_ifs <;> simp

theorem frameNonceLen_ge (flags : UInt8) : 12 ≤ frameNonceLen flags := by
  unfold frameNonceLen
  split_ifs <;> simp

@[simp] theorem frameHead_length (t : TTFrameType) (seq : ℕ) (flags : UInt8) (nonce hdr : Bytes) :
    (frameHead t seq flags nonce hdr).length = 11 + nonce.length + 2 + hdr.length := by
  simp only [frameHead, frameMagic, List.length_append, List.length_cons, List.length_nil,
    u32be_length, u16be_length]

/-- What a successful structural parse says about the bytes. -/
structure PeekSpec (b : Bytes) (d : TTFrameDesc) : Prop where
  length_le : b.length ≤ ttFrameMax
  length_ge : 11 + ttNonce12 + 2 + ttMac16 ≤ b.length
  magic : b.take 4 = frameMagic
  ver : b.getD 4 0 = ttFrameVer
  reserved : d.flags &&& 0xF0 = 0
  type_eq : d.type = TTFrameType.ofByte (b.getD 5 0)
  flags_eq : d.flags = b.getD 6 0
  seq_eq : d.seq = readU32 (b.drop 7)
  nonce_length : d.nonce.length = frameNonceLen d.flags
  nonce_eq : d.nonce = (b.drop 11).take d.nonce.length
  hdr_length : d.hdr.length = readU16 (b.drop (11 + d.nonce.length))
  hdr_eq : d.hdr = (b.drop (11 + d.nonce.length + 2)).take d.hdr.length
  off_le : 11 + d.nonce.length + 2 + d.hdr.length + ttMac16 ≤ b.length
  ptLen_eq : d.ptLen = b.length - (11 + d.nonce.length + 2 + d.hdr.length) - ttMac16

theorem ttFramePeek_spec {b : Bytes} {d : TTFrameDesc} (h : ttFramePeek b = some d) :
    PeekSpec b d := by
  simp only [ttFramePeek] at h
  split_ifs at h with h1 h2 h3 h4 h5 h6 h7
  cases h
  have hn : ((b.drop 11).take (frameNonceLen (b.getD 6 0))).length = frameNonceLen (b.getD 6 0) := by
    rw [List.length_take, List.length_drop]
    omega
  have hh : ((b.drop (11 + frameNonceLen (b.getD 6 0) + 2)).take
      (readU16 (b.drop (11 + frameNonceLen (b.getD 6 0))))).length =
      readU16 (b.drop (11 + frameNonceLen (b.getD 6 0))) := by
    rw [List.length_take, List.length_drop]
    omega
  constructor
  case magic => simpa using h3
  case ver => simpa using h4
  case reserved => simpa using h5
  case nonce_length => exact hn
  case nonce_eq => simp only [hn]
  case hdr_length => simp only [hn, hh]
  case hdr_eq => simp only [hn, hh]
  case off_le => simp only [hn, hh]; omega
  case ptLen_eq => simp only [hn, hh]
  all_goals first | rfl | omega

theorem ttFramePeek_of_spec {b : Bytes} {d : TTFrameDesc} (h : PeekSpec b d) :
    ttFramePeek b = some d := by
  have hl := h.length_le
  have hg := h.length_ge
  have ho := h.off_le
  simp only [ttFramePeek, h.magic, h.ver, ← h.flags_eq, ← h.nonce_length, ← h.hdr_length,
    ← h.type_eq, ← h.seq_eq, ← h.nonce_eq, ← h.hdr_eq, ← h.ptLen_eq, h.reserved, ne_eq,
    not_true_eq_false, ↓reduceIte]
  rw [if_neg (by omega), if_neg (by omega), if_neg (by omega), if_neg (by omega)]

theorem ttFrameDecode_isSome_peek {b : Bytes} {key : Key} {cap : ℕ} {r : TTFrameDesc × Bytes}
    (h : ttFrameDecode C b key cap = some r) : ttFramePeek b = some r.1 := by
  simp only [ttFrameDecode] at h
  split_ifs at h with h1 h2 h3 h4 h5 h6 h7 h8 h9
  obtain ⟨pt, hpt, rfl⟩ := Option.map_eq_some_iff.mp h
  rw [ttFramePeek, if_neg h1, if_neg h2, if_neg h3, if_neg h4]
  simp only [if_neg h5, if_neg h6]
  rw [if_neg h8]

theorem ttFrameDecode_of_peek {b : Bytes} {d : TTFrameDesc} (hp : ttFramePeek b = some d)
    (key : Key) (cap : ℕ) :
    ttFrameDecode C b key cap =
      if expectedHdrLen d.type d.flags ≠ some d.hdr.length then none
      else if d.ptLen > cap then none
      else (ttAeadOpen C (frameCipher d.flags) key d.nonce
        (b.take (11 + d.nonce.length + 2 + d.hdr.length))
        (b.drop (11 + d.nonce.length + 2 + d.hdr.length))).map fun pt => (d, pt) := by
  have h := ttFramePeek_spec hp
  have hl := h.length_le
  have hg := h.length_ge
  have ho := h.off_le
  simp only [ttFrameDecode, h.magic, h.ver, ← h.flags_eq, ← h.nonce_length, ← h.hdr_length,
    ← h.type_eq, ← h.seq_eq, ← h.nonce_eq, ← h.hdr_eq, ← h.ptLen_eq, h.reserved, ne_eq,
    not_true_eq_false, ↓reduceIte]
  rw [if_neg (by omega), if_neg (by omega), if_neg (by omega),
    if_neg (show ¬ b.length < 11 + d.nonce.length + 2 + d.hdr.length + ttMac16 by omega)]

theorem ttFrameDecode_type_isSome {b : Bytes} {key : Key} {cap : ℕ} {r : TTFrameDesc × Bytes}
    (h : ttFrameDecode C b key cap = some r) : r.1.type.isSome := by
  rw [ttFrameDecode_of_peek (ttFrameDecode_isSome_peek h)] at h
  split_ifs at h with he hc
  cases ht : r.1.type with
  | none => simp [ht, expectedHdrLen] at he
  | some t => rfl

theorem ttFramePeek_layout {t : TTFrameType} {seq : ℕ} {flags : UInt8} {nonce hdr ct : Bytes}
    (hr : flags &&& 0xF0 = 0) (hs : seq < 2 ^ 32) (hn : nonce.length = frameNonceLen flags)
    (hh : hdr.length < 2 ^ 16) (hc : 16 ≤ ct.length)
    (hl : 11 + nonce.length + 2 + hdr.length + ct.length ≤ 1372) :
    ttFramePeek (frameHead t seq flags nonce hdr ++ ct) =
      some ⟨some t, flags, seq, nonce, hdr, ct.length - 16⟩ := by
  have hb : frameHead t seq flags nonce hdr ++ ct = 84 :: 84 :: 90 :: 49 :: 1 :: t.toByte :: flags ::
      (u32be seq ++ (nonce ++ (u16be hdr.length ++ (hdr ++ ct)))) := by
    simp [frameHead, frameMagic]
  have h7 : (frameHead t seq flags nonce hdr ++ ct).drop 7 =
      u32be seq ++ (nonce ++ (u16be hdr.length ++ (hdr ++ ct))) := by rw [hb]; rfl
  have h11 : (frameHead t seq flags nonce hdr ++ ct).drop 11 =
      nonce ++ (u16be hdr.length ++ (hdr ++ ct)) := by rw [hb]; rfl
  have hdrop (k : ℕ) : (frameHead t seq flags nonce hdr ++ ct).drop (11 + nonce.length + k) =
      (u16be hdr.length ++ (hdr ++ ct)).drop k := by
    rw [Nat.add_assoc, ← List.drop_drop, h11, List.drop_append]
    simp
  have hge := frameNonceLen_ge flags
  apply ttFramePeek_of_spec
  constructor
  case length_le => simp only [List.length_append, frameHead_length, ttFrameMax]; omega
  case length_ge => simp only [List.length_append, frameHead_length, ttNonce12, ttMac16]; omega
  case magic => rw [hb]; rfl
  case ver => rw [hb]; rfl
  case reserved => exact hr
  case type_eq => rw [hb]; simp
  case flags_eq => rw [hb]; rfl
  case seq_eq => rw [h7, readU32_u32be hs]
  case nonce_length => exact hn
  case nonce_eq => rw [h11]; simp
  case hdr_length =>
    have := hdrop 0
    simp only [Nat.add_zero, List.drop_zero] at this
    rw [this, readU16_u16be hh]
  case hdr_eq =>
    rw [hdrop 2]
    simp [u16be]
  case off_le => simp only [List.length_append, frameHead_length, ttMac16]; omega
  case ptLen_eq => simp only [List.length_append, frameHead_length, ttMac16]; omega

theorem ttFrameEncode_eq_some {cap : ℕ} {t : TTFrameType} {seq : ℕ} {flags : UInt8} {key : Key}
    {nonce : Nonce} {hdr pt f : Bytes}
    (h : ttFrameEncode C cap t seq flags key nonce hdr pt = some f) :
    flags &&& 0xF0 = 0 ∧ expectedHdrLen (some t) flags = some hdr.length ∧
      11 + frameNonceLen flags + 2 + hdr.length + pt.length + 16 ≤ 1372 ∧
      11 + frameNonceLen flags + 2 + hdr.length + pt.length + 16 ≤ cap ∧
      ∃ ct, ttAeadSeal C (frameCipher flags) key (nonce.bytes.take (frameNonceLen flags))
        (frameHead t seq flags (nonce.bytes.take (frameNonceLen flags)) hdr) pt = some ct ∧
        f = frameHead t seq flags (nonce.bytes.take (frameNonceLen flags)) hdr ++ ct := by
  simp only [ttFrameEncode] at h
  split_ifs at h with h1 h2 h3 h4
  obtain ⟨ct, hct, rfl⟩ := Option.map_eq_some_iff.mp h
  simp only [ttFrameMax, ttMac16, not_or] at h4
  exact ⟨by simpa using h1, by simpa using h2, by omega, by omega, ct, hct, rfl⟩

theorem expectedHdrLen_le {t : Option TTFrameType} {flags : UInt8} {n : ℕ}
    (h : expectedHdrLen t flags = some n) : n ≤ 1254 := by
  unfold expectedHdrLen at h
  split at h <;> (try split_ifs at h) <;> simp_all <;> omega

theorem ttFramePeek_encode {cap : ℕ} {t : TTFrameType} {seq : ℕ} {flags : UInt8} {key : Key}
    {nonce : Nonce} {hdr pt f : Bytes} (hs : seq < 2 ^ 32)
    (h : ttFrameEncode C cap t seq flags key nonce hdr pt = some f) :
    ttFramePeek f = some ⟨some t, flags, seq, nonce.bytes.take (frameNonceLen flags), hdr,
      pt.length⟩ := by
  obtain ⟨hr, he, hl, hc, ct, hct, rfl⟩ := ttFrameEncode_eq_some h
  have hlen := ttAeadSeal_length hct
  have hn : (nonce.bytes.take (frameNonceLen flags)).length = frameNonceLen flags := by
    rw [List.length_take, Blob.bytes_length]
    have := frameNonceLen_le flags
    omega
  have hh := expectedHdrLen_le he
  rw [ttFramePeek_layout hr hs hn (by omega) (by omega) (by omega)]
  simp [hlen]

theorem ttFrameDecode_of_open {cap ptCap : ℕ} {t : TTFrameType} {seq : ℕ} {flags : UInt8}
    {key : Key} {nonce : Nonce} {hdr pt f : Bytes} (hs : seq < 2 ^ 32)
    (h : ttFrameEncode C cap t seq flags key nonce hdr pt = some f) (hcap : pt.length ≤ ptCap)
    (hopen : ∀ ad ct, ttAeadSeal C (frameCipher flags) key
      (nonce.bytes.take (frameNonceLen flags)) ad pt = some ct →
      ttAeadOpen C (frameCipher flags) key (nonce.bytes.take (frameNonceLen flags)) ad ct = some pt) :
    ttFrameDecode C f key ptCap = some (⟨some t, flags, seq,
      nonce.bytes.take (frameNonceLen flags), hdr, pt.length⟩, pt) := by
  have hp := ttFramePeek_encode hs h
  obtain ⟨hr, he, hl, hc, ct, hct, rfl⟩ := ttFrameEncode_eq_some h
  rw [ttFrameDecode_of_peek hp]
  simp only [he, ne_eq, not_true_eq_false, ↓reduceIte]
  rw [if_neg (by omega)]
  have hoff : 11 + (nonce.bytes.take (frameNonceLen flags)).length + 2 + hdr.length =
      (frameHead t seq flags (nonce.bytes.take (frameNonceLen flags)) hdr).length := by simp
  rw [hoff, List.take_left, List.drop_left, hopen _ _ hct]
  rfl

theorem ttFrameDecode_encode (hC : C.AeadCorrect) {cap : ℕ} (ptCap : ℕ) {t : TTFrameType} {seq : ℕ}
    {flags : UInt8} {key : Key} {nonce : Nonce} {hdr pt f : Bytes} (hs : seq < 2 ^ 32)
    (h : ttFrameEncode C cap t seq flags key nonce hdr pt = some f) (hcap : pt.length ≤ ptCap) :
    ttFrameDecode C f key ptCap = some (⟨some t, flags, seq,
      nonce.bytes.take (frameNonceLen flags), hdr, pt.length⟩, pt) :=
  ttFrameDecode_of_open hs h hcap fun _ _ hct => ttAeadOpen_seal hC hct

theorem ttFrameEncode_isSome (hC : C.AeadCorrect) {cap : ℕ} {t : TTFrameType} (seq : ℕ)
    {flags : UInt8} (key : Key) (nonce : Nonce) {hdr pt : Bytes} (hr : flags &&& 0xF0 = 0)
    (he : expectedHdrLen (some t) flags = some hdr.length)
    (hl : 11 + frameNonceLen flags + 2 + hdr.length + pt.length + 16 ≤ min 1372 cap)
    (hg : frameCipher flags = .aesgcm → C.gcmIsAvailable = true) :
    ∃ f, ttFrameEncode C cap t seq flags key nonce hdr pt = some f := by
  simp only [ttFrameEncode, hr, he, ne_eq, not_true_eq_false, ↓reduceIte, ttFrameMax, ttMac16]
  rw [if_neg (by omega), if_neg (by omega), ttAeadSeal_available hC _ _ _ _ hg]
  exact ⟨_, rfl⟩

end TkTox
