import TkTox.SessionSend

/-!
The outcomes of `emit_frame`: which header a frame gets, when the encode succeeds and which
session it leaves.
-/

namespace TkTox

variable {C : Crypto} {s : TTSession} {k : TTRekey} {ρ : Draws}

/-- A header comes with its flags, and only a REKEY with the secrets of a fold. -/
def HdrChoice.Fits (c : HdrChoice) : Prop :=
  (c.hdr = [] ∧ c.flags = 0 ∧ c.fold = none) ∨
  (c.hdr.length = ttHdrDataKempub ∧ c.flags = ttFrameFlagPk ∧ c.fold = none) ∨
  (c.hdr.length = ttHdrDataRekey ∧ c.flags = ttFrameFlagKem ||| ttFrameFlagPk ∧ c.fold.isSome)

theorem kempubHdr_length (k : TTRekey) : (kempubHdr k).length = ttHdrDataKempub := by
  rw [kempubHdr, List.length_append, Blob.bytes_length, Blob.bytes_length]

theorem selectHdr_cases (C : Crypto) (k : TTRekey) (ρ : Draws) :
    (k.postFoldPublish = true ∧ selectHdr C k ρ =
      ⟨{ k with published := true, postFoldPublish := false, publishBack := false },
        kempubHdr k, ttFrameFlagPk, none⟩) ∨
    (k.postFoldPublish = false ∧ k.rekeyDue = true ∧ k.peerHave = true ∧
      ttDhShared C k.ephSk k.peerEphPk = none ∧ selectHdr C k ρ = ⟨k, [], 0, none⟩) ∨
    (k.postFoldPublish = false ∧ k.rekeyDue = true ∧ k.peerHave = true ∧
      ∃ dh, ttDhShared C k.ephSk k.peerEphPk = some dh ∧ selectHdr C k ρ =
        ⟨k, (ttKemEnc C ρ.encSeed k.peerKemPk).1.bytes ++ k.ephPk.bytes,
          ttFrameFlagKem ||| ttFrameFlagPk, some (dh, (ttKemEnc C ρ.encSeed k.peerKemPk).2)⟩) ∨
    (k.postFoldPublish = false ∧ k.rekeyDue = true ∧ k.peerHave = false ∧
      k.awaitingPeer = false ∧ selectHdr C k ρ =
        ⟨{ ensureKem C k ρ with published := true, awaitingPeer := true, rekeyDue := false },
          kempubHdr (ensureKem C k ρ), ttFrameFlagPk, none⟩) ∨
    (k.postFoldPublish = false ∧ (k.rekeyDue = false ∨ k.peerHave = false ∧ k.awaitingPeer = true) ∧
      k.publishBack = true ∧ selectHdr C k ρ =
        ⟨{ k with published := true, publishBack := false }, kempubHdr k, ttFrameFlagPk, none⟩) ∨
    (k.postFoldPublish = false ∧ (k.rekeyDue = false ∨ k.peerHave = false ∧ k.awaitingPeer = true) ∧
      k.publishBack = false ∧ selectHdr C k ρ = ⟨k, [], 0, none⟩) := by
  unfold selectHdr
  cases h1 : k.postFoldPublish with
  | true => exact Or.inl ⟨rfl, rfl⟩
  | false =>
    refine Or.inr ?_
    cases h2 : k.rekeyDue with
    | true =>
      cases h3 : k.peerHave with
      | true =>
        cases h4 : ttDhShared C k.ephSk k.peerEphPk with
        | none => exact Or.inl ⟨rfl, rfl, rfl, rfl, rfl⟩
        | some dh => exact Or.inr (Or.inl ⟨rfl, rfl, rfl, dh, rfl, rfl⟩)
      | false =>
        refine Or.inr (Or.inr ?_)
        cases h4 : k.awaitingPeer with
        | false => exact Or.inl ⟨rfl, rfl, rfl, rfl, rfl⟩
        | true =>
          refine Or.inr ?_
          cases h5 : k.publishBack with
          | true => exact Or.inl ⟨rfl, Or.inr ⟨rfl, rfl⟩, rfl, rfl⟩
          | false => exact Or.inr ⟨rfl, Or.inr ⟨rfl, rfl⟩, rfl, rfl⟩
    | false =>
      refine Or.inr (Or.inr (Or.inr ?_))
      cases h5 : k.publishBack with
      | true => exact Or.inl ⟨rfl, Or.inl rfl, rfl, rfl⟩
      | false => exact Or.inr ⟨rfl, Or.inl rfl, rfl, rfl⟩

theorem selectHdr_fits (C : Crypto) (k : TTRekey) (ρ : Draws) : (selectHdr C k ρ).Fits := by
  rcases selectHdr_cases C k ρ with ⟨-, h⟩ | ⟨-, -, -, -, h⟩ | ⟨-, -, -, dh, -, h⟩ |
    ⟨-, -, -, -, h⟩ | ⟨-, -, -, h⟩ | ⟨-, -, -, h⟩ <;> rw [h]
  · exact Or.inr (Or.inl ⟨kempubHdr_length _, rfl, rfl⟩)
  · exact Or.inl ⟨rfl, rfl, rfl⟩
  · refine Or.inr (Or.inr ⟨?_, rfl, rfl⟩)
    rw [List.length_append, Blob.bytes_length, Blob.bytes_length]
  · exact Or.inr (Or.inl ⟨kempubHdr_length _, rfl, rfl⟩)
  · exact Or.inr (Or.inl ⟨kempubHdr_length _, rfl, rfl⟩)
  · exact Or.inl ⟨rfl, rfl, rfl⟩

theorem emitHdr_fits (C : Crypto) (s : TTSession) (b : Bool) (ρ : Draws) :
    (emitHdr C s b ρ).Fits := by
  unfold emitHdr
  split_ifs
  · exact selectHdr_fits _ _ _
  · exact Or.inl ⟨rfl, rfl, rfl⟩

theorem autoRekey_carrier : (autoRekey s).carrier = s.rekey.carrier := by
  unfold autoRekey
  split_ifs <;> rfl

theorem HdrChoice.Fits.geometry {c : HdrChoice} (h : c.Fits) :
    (dataFlags C ||| c.flags) &&& 0xF0 = 0 ∧
      expectedHdrLen (some .data) (dataFlags C ||| c.flags) = some c.hdr.length ∧
      (frameCipher (dataFlags C ||| c.flags) = .aesgcm → C.gcmIsAvailable = true) := by
  unfold dataFlags ttAeadGcmAvailable
  rcases h with ⟨hh, hf, -⟩ | ⟨hh, hf, -⟩ | ⟨hh, hf, -⟩ <;> rw [hh, hf] <;>
    cases C.gcmIsAvailable <;> decide

theorem frameNonceLen_dataFlags (C : Crypto) (s : TTSession) (b : Bool) (ρ : Draws) :
    frameNonceLen (dataFlags C ||| (emitHdr C s b ρ).flags) =
      if C.gcmIsAvailable then 12 else 24 := by
  unfold dataFlags ttAeadGcmAvailable
  rcases emitHdr_fits C s b ρ with ⟨-, hf, -⟩ | ⟨-, hf, -⟩ | ⟨-, hf, -⟩ <;> rw [hf] <;>
    cases C.gcmIsAvailable <;> decide

def emitEncode (C : Crypto) (s : TTSession) (text : TTSentBuf → Bytes) (cap : ℕ) (carrierOnly : Bool)
    (ρ : Draws) : Option Bytes :=
  ttFrameEncode C cap .data s.send.seq (dataFlags C ||| (emitHdr C s carrierOnly ρ).flags)
    (chainMaterial C s.send.chain).1 (chainMaterial C s.send.chain).2 (emitHdr C s carrierOnly ρ).hdr
    (text s.rel.sent)

def emitDrawn (C : Crypto) (s : TTSession) (carrierOnly : Bool) (ρ : Draws) : TTSession :=
  { s with rekey := (emitHdr C s carrierOnly ρ).rekey, send := sendAdvance C s.send }

def emitDone (C : Crypto) (s : TTSession) (text : TTSentBuf → Bytes) (carrierOnly : Bool)
    (ρ : Draws) (f : Bytes) : TTSession :=
  parkCarrier (finishFold C
    (if s.lossy then emitDrawn C s carrierOnly ρ
      else { emitDrawn C s carrierOnly ρ with rel := { s.rel with
        sent := relSentAdd s.rel.sent (relGen C s.root) s.send.seq text } })
    (emitHdr C s carrierOnly ρ).fold) (emitHdr C s carrierOnly ρ).hdr f

theorem emitFrame_cases (C : Crypto) (s : TTSession) (text : TTSentBuf → Bytes) (cap : ℕ)
    (carrierOnly : Bool) (ρ : Draws) :
    (s.lossy = true ∧ s.rekey.carrier ≠ [] ∧
      emitFrame C s text cap carrierOnly ρ = (s, .error .carrier)) ∨
    ((s.lossy = true → s.rekey.carrier = []) ∧ emitEncode C s text cap carrierOnly ρ = none ∧
      emitFrame C s text cap carrierOnly ρ = (emitDrawn C s carrierOnly ρ, .error .badState)) ∨
    ((s.lossy = true → s.rekey.carrier = []) ∧
      ∃ f, emitEncode C s text cap carrierOnly ρ = some f ∧
        emitFrame C s text cap carrierOnly ρ = (emitDone C s text carrierOnly ρ f, .ok f)) := by
  unfold emitFrame
  by_cases hb : s.lossy = true ∧ s.rekey.carrier ≠ []
  · exact Or.inl ⟨hb.1, hb.2, if_pos hb⟩
  have hb' : s.lossy = true → s.rekey.carrier = [] := fun hl => by
    by_contra hc
    exact hb ⟨hl, hc⟩
  rw [if_neg hb]
  refine Or.inr ?_
  cases he : emitEncode C s text cap carrierOnly ρ with
  | none =>
    refine Or.inl ⟨hb', rfl, ?_⟩
    rw [emitEncode] at he
    simp only [sendKey, he, emitDrawn]
  | some f =>
    refine Or.inr ⟨hb', f, rfl, ?_⟩
    rw [emitEncode] at he
    simp only [sendKey, he, emitDone, emitDrawn]

theorem emitEncode_isSome (hC : C.AeadCorrect) (text : TTSentBuf → Bytes) (cap : ℕ)
    (carrierOnly : Bool) (ρ : Draws)
    (hroom : 53 + (emitHdr C s carrierOnly ρ).hdr.length + (text s.rel.sent).length ≤
      min 1372 cap) : ∃ f, emitEncode C s text cap carrierOnly ρ = some f := by
  obtain ⟨hr, hl, hg⟩ := (emitHdr_fits C s carrierOnly ρ).geometry (C := C)
  have hn := frameNonceLen_le (dataFlags C ||| (emitHdr C s carrierOnly ρ).flags)
  exact ttFrameEncode_isSome hC _ _ _ hr hl (by omega) hg

theorem emitEncode_peek {text : TTSentBuf → Bytes} {cap : ℕ} {carrierOnly : Bool} {f : Bytes}
    (hs : s.send.seq < 2 ^ 32) (h : emitEncode C s text cap carrierOnly ρ = some f) :
    ∃ d, ttFramePeek f = some d ∧ d.type = some .data ∧ d.seq = s.send.seq ∧
      d.hdr = (emitHdr C s carrierOnly ρ).hdr ∧ d.ptLen = (text s.rel.sent).length :=
  ⟨_, ttFramePeek_encode hs h, rfl, rfl, rfl, rfl⟩

theorem emitEncode_length_le {text : TTSentBuf → Bytes} {cap : ℕ} {carrierOnly : Bool} {f : Bytes}
    (h : emitEncode C s text cap carrierOnly ρ = some f) :
    f.length ≤ ttFrameMax ∧ f.length ≤ cap ∧ f ≠ [] := by
  obtain ⟨-, -, hl, hc, ct, hct, rfl⟩ := ttFrameEncode_eq_some h
  have hlen := ttAeadSeal_length hct
  have hge := frameNonceLen_ge (dataFlags C ||| (emitHdr C s carrierOnly ρ).flags)
  have hle := frameNonceLen_le (dataFlags C ||| (emitHdr C s carrierOnly ρ).flags)
  have htot : (frameHead .data s.send.seq (dataFlags C ||| (emitHdr C s carrierOnly ρ).flags)
      ((chainMaterial C s.send.chain).2.bytes.take
        (frameNonceLen (dataFlags C ||| (emitHdr C s carrierOnly ρ).flags)))
      (emitHdr C s carrierOnly ρ).hdr ++ ct).length =
      11 + frameNonceLen (dataFlags C ||| (emitHdr C s carrierOnly ρ).flags) + 2 +
        (emitHdr C s carrierOnly ρ).hdr.length + (text s.rel.sent).length + 16 := by
    rw [List.length_append, frameHead_length, hlen, List.length_take, Blob.bytes_length]
    omega
  refine ⟨by rw [htot]; exact hl, by rw [htot]; exact hc, fun h0 => ?_⟩
  rw [h0] at htot
  simp only [List.length_nil] at htot
  omega

theorem emitFrame_pending (C : Crypto) (s : TTSession) (text : TTSentBuf → Bytes) (cap : ℕ) (b : Bool)
    (ρ : Draws) : (emitFrame C s text cap b ρ).1.active = s.active ∧
      (emitFrame C s text cap b ρ).1.pending = s.pending := by
  obtain ⟨-, -, he⟩ | ⟨-, -, he⟩ | ⟨-, f, -, he⟩ := emitFrame_cases C s text cap b ρ
  · rw [he]
    exact ⟨rfl, rfl⟩
  · rw [he]
    exact ⟨rfl, rfl⟩
  · rw [he]
    unfold emitDone parkCarrier finishFold
    cases (emitHdr C s b ρ).fold <;> split_ifs <;> exact ⟨rfl, rfl⟩

theorem emitFrame_ne_nil (C : Crypto) (s : TTSession) (text : TTSentBuf → Bytes) (cap : ℕ) (b : Bool)
    (ρ : Draws) : (emitFrame C s text cap b ρ).2 ≠ .ok [] := by
  obtain ⟨-, -, he⟩ | ⟨-, -, he⟩ | ⟨-, f, hf, he⟩ := emitFrame_cases C s text cap b ρ
  · rw [he]
    simp
  · rw [he]
    simp
  · rw [he]
    simpa using (emitEncode_length_le hf).2.2

theorem finishFold_lossy (t : TTSession) (fold : Option (Key × Key)) :
    (finishFold C t fold).lossy = t.lossy := by
  cases fold <;> rfl

theorem parkCarrier_reliable {t : TTSession} (h : t.lossy = false) (hdr frame : Bytes) :
    parkCarrier t hdr frame = t := by
  have hl : ¬ (t.lossy = true ∧ (hdr.length = ttHdrDataRekey ∨ hdr.length = ttHdrDataKempub) ∧
      frame.length ≤ ttFrameMax) := by
    rintro ⟨ht, -⟩
    rw [h] at ht
    cases ht
  rw [parkCarrier, if_neg hl]

theorem emitDone_reliable (h : s.lossy = false) (text : TTSentBuf → Bytes) (ρ : Draws) (f : Bytes) :
    emitDone C s text false ρ f =
      finishFold C { emitDrawn C s false ρ with rel := { s.rel with
        sent := relSentAdd s.rel.sent (relGen C s.root) s.send.seq text } }
        (emitHdr C s false ρ).fold := by
  have hf : ¬ s.lossy = true := by simp [h]
  rw [emitDone, if_neg hf, parkCarrier_reliable]
  rw [finishFold_lossy]
  exact h

end TkTox
