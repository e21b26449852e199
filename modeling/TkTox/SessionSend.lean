import TkTox.Session

/-!
The sending half of `session.c`: the DATA frame with its re-key header, the parked carrier
of a lossy session, the stash and the control frames of the reliable transport.
-/

namespace TkTox

variable (C : Crypto)

def dataFlags : UInt8 :=
  if ttAeadGcmAvailable C then ttFrameFlagGcm ||| ttFrameFlagAesHw else 0

/-- The re-key header `emit_frame` selects, with the re-key state after the selection;
`fold` holds the DH and KEM secrets of a REKEY. -/
structure HdrChoice where
  rekey : TTRekey
  hdr : Bytes
  flags : UInt8
  fold : Option (Key × Key)

def autoRekey (s : TTSession) : TTRekey :=
  if s.rekey.awaitingPeer = false ∧ s.send.sinceFold ≥ ttSessionRekeyEvery then
    { s.rekey with rekeyDue := true }
  else s.rekey

def kempubHdr (k : TTRekey) : Bytes := k.kemPk.bytes ++ k.ephPk.bytes

def ensureKem (k : TTRekey) (ρ : Draws) : TTRekey :=
  if k.haveKem then k
  else
    let kem := ttKemKeygen C ρ.kemSeed
    { k with kemPk := kem.1, kemSk := kem.2, haveKem := true }

def selectHdr (k : TTRekey) (ρ : Draws) : HdrChoice :=
  if k.postFoldPublish then
    ⟨{ k with published := true, postFoldPublish := false, publishBack := false },
      kempubHdr k, ttFrameFlagPk, none⟩
  else if k.rekeyDue && k.peerHave then
    match ttDhShared C k.ephSk k.peerEphPk with
    | none => ⟨k, [], 0, none⟩
    | some dh =>
      let enc := ttKemEnc C ρ.encSeed k.peerKemPk
      ⟨k, enc.1.bytes ++ k.ephPk.bytes, ttFrameFlagKem ||| ttFrameFlagPk, some (dh, enc.2)⟩
  else if k.rekeyDue && !k.awaitingPeer then
    let k := ensureKem C k ρ
    ⟨{ k with published := true, awaitingPeer := true, rekeyDue := false },
      kempubHdr k, ttFrameFlagPk, none⟩
  else if k.publishBack then
    ⟨{ k with published := true, publishBack := false }, kempubHdr k, ttFrameFlagPk, none⟩
  else ⟨k, [], 0, none⟩

def finishFold (s : TTSession) (fold : Option (Key × Key)) : TTSession :=
  match fold with
  | some (dh, ss) =>
    { s with
      send := { ratchetFold C s.send dh ss with sinceFold := 0 }
      rekey := { s.rekey with rekeyDue := false, peerHave := false } }
  | none => { s with send := { s.send with sinceFold := (s.send.sinceFold + 1) % 2 ^ 16 } }

def parkCarrier (s : TTSession) (hdr frame : Bytes) : TTSession :=
  if s.lossy ∧ (hdr.length = ttHdrDataRekey ∨ hdr.length = ttHdrDataKempub) ∧
      frame.length ≤ ttFrameMax then
    { s with rekey := { s.rekey with carrier := frame } }
  else s

def emitHdr (s : TTSession) (carrierOnly : Bool) (ρ : Draws) : HdrChoice :=
  if s.lossy = false ∨ carrierOnly then selectHdr C (autoRekey s) ρ
  else ⟨autoRekey s, [], 0, none⟩

def emitFrame (s : TTSession) (text : TTSentBuf → Bytes) (cap : ℕ) (carrierOnly : Bool)
    (ρ : Draws) : TTSession × Except TTE2EEStatus Bytes :=
  if s.lossy ∧ s.rekey.carrier ≠ [] then (s, .error .carrier)
  else
    let choice := emitHdr C s carrierOnly ρ
    let sk := sendKey C s.send
    let s := { s with rekey := choice.rekey, send := sk.2 }
    match ttFrameEncode C cap .data sk.1.1 (dataFlags C ||| choice.flags) sk.1.2.1 sk.1.2.2
      choice.hdr (text s.rel.sent) with
    | none => (s, .error .badState)
    | some f =>
      let s := if s.lossy then s
        else { s with rel := { s.rel with
          sent := relSentAdd s.rel.sent (relGen C s.root) sk.1.1 text } }
      (parkCarrier (finishFold C s choice.fold) choice.hdr f, .ok f)

def ttSessionRekeyPending (s : TTSession) : Bool :=
  s.active &&
    ((!s.rekey.awaitingPeer && decide (s.send.sinceFold ≥ ttSessionRekeyEvery)) ||
      (s.rekey.rekeyDue && s.rekey.peerHave) ||
      (s.rekey.rekeyDue && !s.rekey.awaitingPeer) ||
      s.rekey.postFoldPublish || s.rekey.publishBack)

def ttSessionCarrier (s : TTSession) (cap : ℕ) (ρ : Draws) :
    TTSession × Except TTE2EEStatus Bytes :=
  if s.active = false then (s, .ok [])
  else if s.rekey.carrier ≠ [] then
    if cap < s.rekey.carrier.length then (s, .error .badState) else (s, .ok s.rekey.carrier)
  else if ttSessionRekeyPending s = false then (s, .ok [])
  else emitFrame C s (fun _ => []) cap true ρ

def ttSessionCarrierPending (s : TTSession) : Bool := s.lossy && s.rekey.carrier ≠ []

def ttSessionCarrierDone (s : TTSession) : TTSession :=
  { s with rekey := { s.rekey with carrier := [] } }

def ttSessionSend (s : TTSession) (text : Bytes) (cap : ℕ) (ρ : Draws) :
    TTSession × Except TTE2EEStatus Bytes :=
  if text.length > ttFrameDataMax then (s, .error .badState)
  else if s.active = false then
    if s.pending.length ≥ ttSessionPendingMax then (s, .error .busy)
    else if text.length > 0 then ({ s with pending := s.pending ++ [text] }, .ok [])
    else (s, .ok [])
  else emitFrame C s (fun _ => text) cap false ρ

def ttSessionSendLossy (s : TTSession) (text : Bytes) (cap : ℕ) (ρ : Draws) :
    TTSession × Except TTE2EEStatus Bytes :=
  if text.length > ttFrameDataMax then (s, .error .badState)
  else if s.active = false then (s, .ok [])
  else emitFrame C s (fun _ => text) cap false ρ

def ttSessionFlush (s : TTSession) (cap : ℕ) (ρ : Draws) :
    TTSession × Except TTE2EEStatus Bytes :=
  match s.active, s.pending with
  | true, text :: rest =>
    match emitFrame C s (fun _ => text) cap false ρ with
    | (s, .ok (b :: f)) => ({ s with pending := rest }, .ok (b :: f))
    | (s, r) => (s, r)
  | _, _ => (s, .ok [])

def controlFrame (s : TTSession) (type : TTFrameType) (a b : ℕ) (cap : ℕ) (ρ : Draws) : Bytes :=
  (ttFrameEncode C cap type 0 0 (controlKey C s.root) ρ.nonce [] (u32be a ++ u32be b)).getD []

def relResend (cap : ℕ) (ρ : ℕ → Draws) : ℕ → ℕ → TTSession → TTSession × Bytes
  | 0, _, s => ({ s with rel := { s.rel with resendRepPending := false } }, [])
  | n + 1, r, s =>
    let i := sentIdx (s.rel.sent.head + r)
    let msg := s.rel.sent.m i
    if msg.gen ≠ s.rel.resendRepGen ∨ msg.seq < s.rel.resendRepFrom then
      relResend cap ρ n (r + 1) s
    else
      match emitFrame C s (TTSentBuf.readSlot i msg.data.length) cap false (ρ r) with
      | (s, .ok (b :: f)) =>
        ({ s with rel := { s.rel with sent := relSentRemove s.rel.sent msg.gen msg.seq } }, b :: f)
      | (s, _) => relResend cap ρ n (r + 1) s

def ttSessionRelPoll (s : TTSession) (cap : ℕ) (ρ : ℕ → Draws) : TTSession × Bytes :=
  if s.active = false then (s, [])
  else if s.rel.resendReqPending then
    ({ s with rel := { s.rel with resendReqPending := false } },
      controlFrame C s .resend s.rel.resendReqGen s.rel.resendReqFrom cap (ρ 0))
  else if s.rel.resendRepPending then relResend C cap ρ s.rel.sent.count 0 s
  else if s.rel.ackDue then
    ({ s with rel := { s.rel with ackDue := false } },
      controlFrame C s .ack s.rel.recvAcked (relGen C s.root) cap (ρ 0))
  else (s, [])

def ttSessionRekeyDue (s : TTSession) : TTSession :=
  if s.active then { s with rekey := { s.rekey with rekeyDue := true } } else s

end TkTox
