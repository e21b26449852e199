import TkTox.FeedCases
import TkTox.Instance

/-!
The re-key carrier of a lossy session. A payload frame is always plain; a re-key header goes
out on its own frame, which is parked and re-offered until the transport takes it.
-/

namespace TkTox

variable {C : Crypto} {s : TTSession} {k : TTRekey} {ρ : Draws} {cap : ℕ} {d : TTFrameDesc}
  {input : Bytes}

/-- The calls made on an established lossy session: buffers of full frame size, DATA frames in. -/
def lossyOp : SessionOp → Prop
  | .carrier cap _ | .sendLossy _ cap _ => ttFrameMax ≤ cap
  | .carrierDone | .rekeyDue => True
  | .feed _ _ input _ => ∀ d, ttFramePeek input = some d → d.type = some .data
  | _ => False

/-- A lossy session as a handshake leaves it. -/
structure LossyEstablished (s : TTSession) : Prop where
  active : s.active = true
  lossy : s.lossy = true
  send_seq : s.send.seq = 1
  peerHave : s.rekey.peerHave = false
  carrier : s.rekey.carrier = []

theorem LossyEstablished.of_feed {env : TTE2EEEnv} (hl : s.lossy = true) (ha : s.active = false)
    (hk : s.rekey = .zero) (hh : (ttSessionFeed C s env ρ input cap).handshaked = true) :
    LossyEstablished (ttSessionFeed C s env ρ input cap).session := by
  obtain ⟨d, -, ⟨-, h, -⟩ | ⟨-, -, key, f, -, h⟩ | ⟨-, -, -, -, -, f, -, h⟩⟩ :=
    ttSessionFeed_handshaked hh
  · rw [ha] at h
    cases h
  · have ht : (initTarget s).lossy = true ∧ (initTarget s).rekey = .zero := by
      unfold initTarget
      split_ifs
      · exact ⟨hl, rfl⟩
      · exact ⟨hl, hk⟩
    rw [h]
    constructor <;> simp [acceptedInit, establish, responderScratch, ratchetReset, ht, TTRekey.zero]
  · rw [h]
    constructor <;> simp [acceptedReply, establish, ratchetReset, hl, hk, TTRekey.zero]

def Contributory (C : Crypto) (p : Key) : Prop := ∀ a, ∃ z, ttDhShared C a p = some z

theorem Contributory.of_shared (hL : C.LowOrderOnly) {a p z : Key}
    (h : ttDhShared C a p = some z) : Contributory C p := by
  intro b
  cases hb : ttDhShared C b p with
  | some z => exact ⟨z, rfl⟩
  | none =>
    have := hL b a p hb
    rw [ttDhShared, this] at h
    cases h

def PeerUsable (C : Crypto) (k : TTRekey) : Prop :=
  k.peerHave = true → Contributory C k.peerEphPk

/-- What every call keeps on an established lossy session. -/
structure LossyInv (C : Crypto) (s : TTSession) : Prop where
  active : s.active = true
  lossy : s.lossy = true
  send_seq : s.send.seq < 2 ^ 32
  peer : PeerUsable C s.rekey

theorem LossyEstablished.inv (h : LossyEstablished s) : LossyInv C s where
  active := h.active
  lossy := h.lossy
  send_seq := by rw [h.send_seq]; norm_num
  peer := fun hp => by rw [h.peerHave] at hp; cases hp

theorem selectHdr_hdr_ne_nil (hc : PeerUsable C k) :
    (selectHdr C k ρ).hdr ≠ [] ↔
      ((k.rekeyDue && k.peerHave) || (k.rekeyDue && !k.awaitingPeer) ||
        k.postFoldPublish || k.publishBack) = true := by
  have hk (k : TTRekey) : kempubHdr k ≠ [] := fun h => by
    have := kempubHdr_length k
    rw [h] at this
    cases this
  rcases selectHdr_cases C k ρ with ⟨h1, h⟩ | ⟨-, -, h3, h4, -⟩ | ⟨-, h2, h3, dh, -, h⟩ |
    ⟨-, h2, -, h4, h⟩ | ⟨-, -, h5, h⟩ | ⟨h1, h2, h5, h⟩
  · simp [h, hk, h1]
  · obtain ⟨z, hz⟩ := hc h3 k.ephSk
    rw [h4] at hz
    cases hz
  · have hne : (ttKemEnc C ρ.encSeed k.peerKemPk).1.bytes ++ k.ephPk.bytes ≠ [] := fun h0 => by
      have := congrArg List.length h0
      rw [List.length_append, Blob.bytes_length, Blob.bytes_length] at this
      cases this
    rw [h]
    simpa [h2, h3] using hne
  · simp [h, hk, h2, h4]
  · simp [h, hk, h5]
  · rw [h]
    rcases h2 with h2 | ⟨h2, h3⟩ <;> simp [*]

theorem ttSessionRekeyPending_iff (h : LossyInv C s) (ρ : Draws) :
    ttSessionRekeyPending s = true ↔ (emitHdr C s true ρ).hdr ≠ [] := by
  have hp : PeerUsable C (autoRekey s) := by
    unfold autoRekey
    split_ifs <;> exact h.peer
  rw [emitHdr, if_pos (Or.inr rfl), selectHdr_hdr_ne_nil hp]
  simp only [ttSessionRekeyPending, h.active, Bool.true_and]
  unfold autoRekey
  split_ifs with ha
  · simp [ha.1, ha.2]
  · have : (!s.rekey.awaitingPeer && decide (s.send.sinceFold ≥ ttSessionRekeyEvery)) = false := by
      simpa [Bool.and_eq_false_iff, or_iff_not_imp_left] using ha
    rw [this, Bool.false_or]

structure SameSender (s s' : TTSession) : Prop where
  active : s'.active = s.active
  lossy : s'.lossy = s.lossy
  send : s'.send = s.send
  carrier : s'.rekey.carrier = s.rekey.carrier

theorem SameSender.refl (s : TTSession) : SameSender s s := ⟨rfl, rfl, rfl, rfl⟩

theorem SameSender.trans {s t u : TTSession} (h : SameSender s t) (h' : SameSender t u) :
    SameSender s u :=
  ⟨h'.active.trans h.active, h'.lossy.trans h.lossy, h'.send.trans h.send,
    h'.carrier.trans h.carrier⟩

theorem applyHdr_sameSender (hdr : Bytes) : SameSender s (applyHdr C s hdr ρ) := by
  unfold applyHdr applyRekey applyKempub
  split_ifs
  · dsimp only
    split
    · exact .refl s
    · exact ⟨rfl, rfl, rfl, rfl⟩
  · split
    · exact .refl s
    · dsimp only
      split_ifs <;> exact ⟨rfl, rfl, rfl, rfl⟩
  · exact .refl s

theorem applyHdr_peer (hL : C.LowOrderOnly) (h : PeerUsable C s.rekey) (hdr : Bytes) :
    PeerUsable C (applyHdr C s hdr ρ).rekey := by
  unfold applyHdr applyRekey applyKempub
  split_ifs
  · dsimp only
    split
    · exact h
    · rename_i heq
      exact fun _ => .of_shared hL heq
  · split
    · exact h
    · rename_i heq
      dsimp only
      split_ifs <;> exact fun _ => .of_shared hL heq
  · exact h

theorem ackMark_sameSender : SameSender s (ackMark s) ∧ (ackMark s).rekey = s.rekey := by
  simp only [ackMark]
  split_ifs <;> exact ⟨⟨rfl, rfl, rfl, rfl⟩, rfl⟩

theorem dataReject_sameSender (seq : ℕ) (key : Key) (taken : Option TTRatchet) :
    SameSender s (dataReject C s seq key taken) ∧
      (dataReject C s seq key taken).rekey = s.rekey := by
  unfold dataReject
  cases taken <;> dsimp only <;> split_ifs <;> exact ⟨⟨rfl, rfl, rfl, rfl⟩, rfl⟩

theorem feedData_sameSender (cap : ℕ) (hp : ttFramePeek input = some d) :
    SameSender s (feedData C s ρ input d cap).session := by
  rcases feedData_cases (C := C) (s := s) (ρ := ρ) cap hp with
    ⟨e, h⟩ | ⟨-, key, taken, -, -, h⟩ | ⟨-, key, taken, pt, -, -, h⟩
  · rw [h]
    exact .refl s
  · rw [h]
    exact (dataReject_sameSender _ _ _).1
  · rw [h]
    have hr : SameSender s { s with recv := taken.getD (recvCommit C s.recv d.seq) } :=
      ⟨rfl, rfl, rfl, rfl⟩
    exact (hr.trans ackMark_sameSender.1).trans (applyHdr_sameSender _)

theorem feedData_peer (hL : C.LowOrderOnly) (cap : ℕ) (hp : ttFramePeek input = some d)
    (hk : PeerUsable C s.rekey) : PeerUsable C (feedData C s ρ input d cap).session.rekey := by
  rcases feedData_cases (C := C) (s := s) (ρ := ρ) cap hp with
    ⟨e, h⟩ | ⟨-, key, taken, -, -, h⟩ | ⟨-, key, taken, pt, -, -, h⟩
  · rw [h]
    exact hk
  · rw [h]
    dsimp only
    rw [(dataReject_sameSender _ _ _).2]
    exact hk
  · rw [h]
    refine applyHdr_peer hL ?_ _
    rw [ackMark_sameSender.2]
    exact hk

theorem LossyInv.of_sameSender {s' : TTSession} (h : LossyInv C s) (hs : SameSender s s')
    (hp : PeerUsable C s'.rekey) : LossyInv C s' :=
  ⟨hs.active.trans h.active, hs.lossy.trans h.lossy, by rw [hs.send]; exact h.send_seq, hp⟩

theorem selectHdr_peer : (selectHdr C k ρ).rekey.peerHave = k.peerHave ∧
    (selectHdr C k ρ).rekey.peerEphPk = k.peerEphPk := by
  rcases selectHdr_cases C k ρ with ⟨-, h⟩ | ⟨-, -, -, -, h⟩ | ⟨-, -, -, dh, -, h⟩ |
    ⟨-, -, -, -, h⟩ | ⟨-, -, -, h⟩ | ⟨-, -, -, h⟩ <;> rw [h]
  all_goals try exact ⟨rfl, rfl⟩
  simp only [ensureKem]
  split_ifs <;> exact ⟨rfl, rfl⟩

theorem emitHdr_peer (b : Bool) (h : PeerUsable C s.rekey) :
    PeerUsable C (emitHdr C s b ρ).rekey := by
  have hp : PeerUsable C (autoRekey s) := by
    unfold autoRekey
    split_ifs <;> exact h
  unfold emitHdr
  split_ifs
  · intro hh
    rw [selectHdr_peer.1] at hh
    rw [selectHdr_peer.2]
    exact hp hh
  · exact hp

theorem emitDrawn_inv (h : LossyInv C s) (b : Bool) : LossyInv C (emitDrawn C s b ρ) :=
  ⟨h.active, h.lossy, seqNext_lt _, emitHdr_peer b h.peer⟩

theorem parkCarrier_inv (h : LossyInv C s) (hdr f : Bytes) : LossyInv C (parkCarrier s hdr f) := by
  unfold parkCarrier
  split_ifs
  · exact ⟨h.active, h.lossy, h.send_seq, h.peer⟩
  · exact h

theorem finishFold_inv (h : LossyInv C s) (fold : Option (Key × Key)) :
    LossyInv C (finishFold C s fold) := by
  cases fold with
  | none => exact ⟨h.active, h.lossy, h.send_seq, h.peer⟩
  | some p => exact ⟨h.active, h.lossy, h.send_seq, fun hp => by cases hp⟩

theorem emitFrame_inv (h : LossyInv C s) (text : TTSentBuf → Bytes) (b : Bool) :
    LossyInv C (emitFrame C s text cap b ρ).1 := by
  rcases emitFrame_cases C s text cap b ρ with ⟨-, -, he⟩ | ⟨-, -, he⟩ | ⟨-, f, -, he⟩
  · rw [he]
    exact h
  · rw [he]
    exact emitDrawn_inv h b
  · rw [he]
    refine parkCarrier_inv (finishFold_inv ?_ _) _ _
    rw [if_pos h.lossy]
    exact emitDrawn_inv h b

theorem lossyStep_feed {env : TTE2EEEnv} (hop : lossyOp (.feed env ρ input cap)) :
    SameSender s (ttSessionFeed C s env ρ input cap).session ∧
      (C.LowOrderOnly → PeerUsable C s.rekey →
        PeerUsable C (ttSessionFeed C s env ρ input cap).session.rekey) := by
  cases hp : ttFramePeek input with
  | none =>
    simp only [ttSessionFeed, hp]
    exact ⟨.refl s, fun _ h => h⟩
  | some d =>
    simp only [ttSessionFeed, hp, hop d hp]
    have hs : SameSender s { s with lastIn := input } := ⟨rfl, rfl, rfl, rfl⟩
    exact ⟨hs.trans (feedData_sameSender cap hp), fun hL h => feedData_peer hL cap hp h⟩

theorem lossyStep_inv (hL : C.LowOrderOnly) (h : LossyInv C s) (op : SessionOp)
    (hop : lossyOp op) : LossyInv C (sessionStep C s op) := by
  cases op with
  | carrier cap ρ =>
    simp only [sessionStep, ttSessionCarrier]
    split_ifs
    iterate 4 exact h
    exact emitFrame_inv h _ _
  | sendLossy text cap ρ =>
    simp only [sessionStep, ttSessionSendLossy]
    split_ifs
    iterate 2 exact h
    exact emitFrame_inv h _ _
  | carrierDone => exact ⟨h.active, h.lossy, h.send_seq, h.peer⟩
  | rekeyDue =>
    rw [sessionStep, ttSessionRekeyDue, if_pos h.active]
    exact ⟨h.active, h.lossy, h.send_seq, h.peer⟩
  | feed env ρ input cap =>
    obtain ⟨hs, hp⟩ := lossyStep_feed (C := C) (s := s) hop
    exact h.of_sameSender hs (hp hL h.peer)
  | _ => exact hop.elim

theorem lossyRun_inv (hL : C.LowOrderOnly) (h : LossyInv C s) {ops : List SessionOp}
    (hops : ∀ op ∈ ops, lossyOp op) : LossyInv C (sessionRun C s ops) := by
  induction ops generalizing s with
  | nil => exact h
  | cons op ops ih =>
    exact ih (lossyStep_inv hL h op (hops op (by simp))) fun o ho => hops o (by simp [ho])

/-! ### The parked carrier -/

theorem ttSessionSendLossy_parked (h : LossyInv C s) (hc : s.rekey.carrier ≠ []) (text : Bytes)
    (cap : ℕ) (ρ : Draws) : ∃ e, ttSessionSendLossy C s text cap ρ = (s, .error e) := by
  unfold ttSessionSendLossy
  split_ifs with h1 h2
  · exact ⟨_, rfl⟩
  · rw [h.active] at h2
    cases h2
  · rw [emitFrame, if_pos ⟨h.lossy, hc⟩]
    exact ⟨_, rfl⟩

theorem ttSessionCarrier_parked (h : LossyInv C s) (hc : s.rekey.carrier ≠ [])
    (hcap : s.rekey.carrier.length ≤ cap) (ρ : Draws) :
    ttSessionCarrier C s cap ρ = (s, .ok s.rekey.carrier) := by
  unfold ttSessionCarrier
  rw [if_neg (by simp [h.active]), if_pos hc, if_neg (by omega)]

theorem lossyStep_parked (h : LossyInv C s) (hc : s.rekey.carrier ≠ []) {op : SessionOp}
    (hop : lossyOp op) (hd : op ≠ .carrierDone) (hf : s.rekey.carrier.length ≤ ttFrameMax) :
    SameSender s (sessionStep C s op) ∧
      (sessionOut C s op = [] ∨ sessionOut C s op = s.rekey.carrier) := by
  cases op with
  | carrier cap ρ =>
    rw [sessionStep, sessionOut, ttSessionCarrier_parked h hc (hf.trans hop)]
    exact ⟨.refl s, Or.inr rfl⟩
  | sendLossy text cap ρ =>
    obtain ⟨e, he⟩ := ttSessionSendLossy_parked h hc text cap ρ
    rw [sessionStep, sessionOut, he]
    exact ⟨.refl s, Or.inl rfl⟩
  | carrierDone => exact absurd rfl hd
  | rekeyDue =>
    rw [sessionStep, ttSessionRekeyDue, if_pos h.active]
    exact ⟨⟨rfl, rfl, rfl, rfl⟩, Or.inl rfl⟩
  | feed env ρ input cap => exact ⟨(lossyStep_feed hop).1, Or.inl rfl⟩
  | _ => exact hop.elim

theorem lossyRun_parked (hL : C.LowOrderOnly) (h : LossyInv C s) (hc : s.rekey.carrier ≠ [])
    (hf : s.rekey.carrier.length ≤ ttFrameMax) {ops : List SessionOp}
    (hops : ∀ op ∈ ops, lossyOp op) (hd : .carrierDone ∉ ops) :
    SameSender s (sessionRun C s ops) := by
  induction ops generalizing s with
  | nil => exact .refl s
  | cons op ops ih =>
    have hop := hops op (by simp)
    have hs := (lossyStep_parked h hc hop (fun he => hd (by simp [he])) hf).1
    refine hs.trans (ih (lossyStep_inv hL h _ hop) ?_ ?_ (fun o ho => hops o (by simp [ho]))
      fun ho => hd (by simp [ho]))
    · rwa [hs.carrier]
    · rwa [hs.carrier]

theorem emitHdr_payload (hl : s.lossy = true) (ρ : Draws) :
    emitHdr C s false ρ = ⟨autoRekey s, [], 0, none⟩ := by
  rw [emitHdr, if_neg (by simp [hl])]

theorem emitDone_payload (hl : s.lossy = true) (text : TTSentBuf → Bytes) (f : Bytes) :
    (emitDone C s text false ρ f).send.root = s.send.root ∧
      (emitDone C s text false ρ f).rekey.carrier = s.rekey.carrier := by
  rw [emitDone, if_pos hl, emitHdr_payload hl, parkCarrier, if_neg (by simp)]
  refine ⟨rfl, ?_⟩
  change (emitHdr C s false ρ).rekey.carrier = _
  rw [emitHdr_payload hl]
  exact autoRekey_carrier

theorem emitDone_parks (hl : s.lossy = true) {text : TTSentBuf → Bytes} {f : Bytes}
    (hh : (emitHdr C s true ρ).hdr ≠ []) (hf : f.length ≤ ttFrameMax) :
    (emitDone C s text true ρ f).rekey.carrier = f := by
  have hlen : (emitHdr C s true ρ).hdr.length = ttHdrDataRekey ∨
      (emitHdr C s true ρ).hdr.length = ttHdrDataKempub := by
    rcases emitHdr_fits C s true ρ with ⟨h0, -⟩ | ⟨h1, -⟩ | ⟨h1, -⟩
    · exact absurd h0 hh
    · exact Or.inr h1
    · exact Or.inl h1
  rw [emitDone, if_pos hl]
  have hfl (t : TTSession) (o : Option (Key × Key)) : (finishFold C t o).lossy = t.lossy := by
    cases o <;> rfl
  rw [parkCarrier, if_pos ⟨(hfl _ _).trans hl, hlen, hf⟩]

theorem ttSessionCarrier_build (hC : C.AeadCorrect) (h : LossyInv C s) (hc : s.rekey.carrier = [])
    (hcap : ttFrameMax ≤ cap) (hp : ttSessionRekeyPending s = true) (ρ : Draws) :
    ∃ f, emitEncode C s (fun _ => []) cap true ρ = some f ∧
      ttSessionCarrier C s cap ρ = (emitDone C s (fun _ => []) true ρ f, .ok f) := by
  have hlen : (emitHdr C s true ρ).hdr.length ≤ ttHdrDataKempub := by
    rcases emitHdr_fits C s true ρ with ⟨h0, -⟩ | ⟨h1, -⟩ | ⟨h1, -⟩
    · simp [h0]
    · exact h1.le
    · rw [h1]
      decide
  obtain ⟨f, hf⟩ := emitEncode_isSome hC (s := s) (fun _ => []) cap true ρ (by
    simp only [ttHdrDataKempub, ttFrameMax] at hlen hcap
    rw [List.length_nil]
    omega)
  refine ⟨f, hf, ?_⟩
  rw [ttSessionCarrier, if_neg (by simp [h.active]), if_neg (by simp [hc]), if_neg (by simp [hp])]
  rcases emitFrame_cases C s (fun _ => []) cap true ρ with ⟨-, hne, -⟩ | ⟨-, hn, -⟩ | ⟨-, g, hg, he⟩
  · exact absurd hc hne
  · rw [hf] at hn
    cases hn
  · rw [hf] at hg
    cases hg
    exact he

theorem ttSessionCarrier_idle (h : LossyInv C s) (hc : s.rekey.carrier = [])
    (hp : ttSessionRekeyPending s = false) (cap : ℕ) (ρ : Draws) :
    ttSessionCarrier C s cap ρ = (s, .ok []) := by
  rw [ttSessionCarrier, if_neg (by simp [h.active]), if_neg (by simp [hc]), if_pos hp]

theorem ttSessionSendLossy_plain (h : LossyInv C s) {text f : Bytes}
    (hf : (ttSessionSendLossy C s text cap ρ).2 = .ok f) :
    ∃ d, ttFramePeek f = some d ∧ d.type = some .data ∧ d.hdr = [] := by
  unfold ttSessionSendLossy at hf
  split_ifs at hf with h1 h2
  · rw [h.active] at h2
    cases h2
  rcases emitFrame_cases C s (fun _ => text) cap false ρ with
    ⟨-, -, he⟩ | ⟨-, -, he⟩ | ⟨-, g, hg, he⟩ <;> rw [he] at hf <;> cases hf
  obtain ⟨d, hd, ht, -, hh, -⟩ := emitEncode_peek h.send_seq hg
  rw [emitHdr_payload h.lossy] at hh
  exact ⟨d, hd, ht, hh⟩

theorem emitDone_root (hl : s.lossy = true) (text : TTSentBuf → Bytes) (f : Bytes)
    (hfold : (emitHdr C s true ρ).fold = none) :
    (emitDone C s text true ρ f).send.root = s.send.root := by
  rw [emitDone, if_pos hl, hfold, parkCarrier]
  split_ifs <;> rfl

theorem lossyStep_root (hC : C.AeadCorrect) (h : LossyInv C s) {op : SessionOp} (hop : lossyOp op)
    (hroot : (sessionStep C s op).send.root ≠ s.send.root) :
    ∃ cap ρ, op = .carrier cap ρ ∧ s.rekey.carrier = [] ∧ ttSessionRekeyPending s = true ∧
      (emitHdr C s true ρ).hdr.length = ttHdrDataRekey := by
  cases op with
  | carrier cap ρ =>
    rw [sessionStep] at hroot
    by_cases hc : s.rekey.carrier = []
    · cases hp : ttSessionRekeyPending s with
      | false =>
        rw [ttSessionCarrier_idle h hc hp] at hroot
        exact absurd rfl hroot
      | true =>
        obtain ⟨f, -, hb⟩ := ttSessionCarrier_build hC h hc hop hp ρ
        rw [hb] at hroot
        refine ⟨cap, ρ, rfl, hc, rfl, ?_⟩
        rcases emitHdr_fits C s true ρ with ⟨-, -, hn⟩ | ⟨-, -, hn⟩ | ⟨hl, -, -⟩
        · exact absurd (emitDone_root h.lossy _ f hn) hroot
        · exact absurd (emitDone_root h.lossy _ f hn) hroot
        · exact hl
    · rw [ttSessionCarrier, if_neg (by simp [h.active]), if_pos hc] at hroot
      split_ifs at hroot <;> exact absurd rfl hroot
  | sendLossy text cap ρ =>
    simp only [sessionStep, ttSessionSendLossy] at hroot
    split_ifs at hroot
    iterate 2 exact absurd rfl hroot
    rcases emitFrame_cases C s (fun _ => text) cap false ρ with
      ⟨-, -, he⟩ | ⟨-, -, he⟩ | ⟨-, g, -, he⟩ <;> rw [he] at hroot
    · exact absurd rfl hroot
    · exact absurd rfl hroot
    · exact absurd (emitDone_payload h.lossy _ g).1 hroot
  | carrierDone => exact absurd rfl hroot
  | rekeyDue =>
    rw [sessionStep, ttSessionRekeyDue, if_pos h.active] at hroot
    exact absurd rfl hroot
  | feed env ρ input cap =>
    rw [sessionStep, (lossyStep_feed hop).1.send] at hroot
    exact absurd rfl hroot
  | _ => exact hop.elim

/-- What the carrier contract promises about the calls made from `s` on. -/
structure CarrierDiscipline (C : Crypto) (s : TTSession) : Prop where
  payload_plain : ∀ text cap ρ f, (ttSessionSendLossy C s text cap ρ).2 = .ok f →
    ∃ d, ttFramePeek f = some d ∧ d.type = some .data ∧ d.hdr = []
  pending_iff : ∀ ρ, ttSessionRekeyPending s = true ↔ (emitHdr C s true ρ).hdr ≠ []
  build : s.rekey.carrier = [] → ∀ cap ρ, ttFrameMax ≤ cap →
    if ttSessionRekeyPending s then
      ∃ d, ttFramePeek (sessionOut C s (.carrier cap ρ)) = some d ∧ d.ptLen = 0 ∧
        (d.hdr.length = ttHdrDataRekey ∨ d.hdr.length = ttHdrDataKempub)
    else ttSessionCarrier C s cap ρ = (s, .ok [])
  held : s.rekey.carrier = [] → ∀ cap ρ f, ttFrameMax ≤ cap →
    sessionOut C s (.carrier cap ρ) = f → f ≠ [] →
    ∀ ops, (∀ op ∈ ops, lossyOp op) → .carrierDone ∉ ops →
    ∀ t, t = sessionRun C (sessionStep C s (.carrier cap ρ)) ops →
      t.send = (sessionStep C s (.carrier cap ρ)).send ∧
      (∀ text cap ρ, ∃ e, ttSessionSendLossy C t text cap ρ = (t, .error e)) ∧
      ∀ cap ρ, ttFrameMax ≤ cap → ttSessionCarrier C t cap ρ = (t, .ok f)
  fold_first : ∀ op, lossyOp op → (sessionStep C s op).send.root ≠ s.send.root →
    (∃ d, ttFramePeek (sessionOut C s op) = some d ∧ d.hdr.length = ttHdrDataRekey) ∧
    ∀ ops next, (∀ op ∈ ops, lossyOp op) → lossyOp next → .carrierDone ∉ ops →
      sessionOut C (sessionRun C (sessionStep C s op) ops) next = [] ∨
        sessionOut C (sessionRun C (sessionStep C s op) ops) next = sessionOut C s op

theorem carrier_built (hC : C.AeadCorrect) (h : LossyInv C s) (hc : s.rekey.carrier = [])
    (hcap : ttFrameMax ≤ cap) (hp : ttSessionRekeyPending s = true) (ρ : Draws) :
    ∃ d, ttFramePeek (sessionOut C s (.carrier cap ρ)) = some d ∧ d.ptLen = 0 ∧
      d.hdr = (emitHdr C s true ρ).hdr ∧
      (sessionStep C s (.carrier cap ρ)).rekey.carrier = sessionOut C s (.carrier cap ρ) ∧
      sessionOut C s (.carrier cap ρ) ≠ [] ∧
      (sessionOut C s (.carrier cap ρ)).length ≤ ttFrameMax := by
  obtain ⟨f, hf, hb⟩ := ttSessionCarrier_build hC h hc hcap hp ρ
  obtain ⟨d, hd, -, -, hh, hl⟩ := emitEncode_peek h.send_seq hf
  obtain ⟨hlen, -, hne⟩ := emitEncode_length_le hf
  simp only [sessionOut, sessionStep, hb, okBytes]
  exact ⟨d, hd, hl, hh, emitDone_parks h.lossy ((ttSessionRekeyPending_iff h ρ).mp hp) hlen, hne,
    hlen⟩

theorem LossyInv.discipline (hC : C.AeadCorrect) (hL : C.LowOrderOnly) (h : LossyInv C s) :
    CarrierDiscipline C s where
  payload_plain _ _ _ _ hf := ttSessionSendLossy_plain h hf
  pending_iff ρ := ttSessionRekeyPending_iff h ρ
  build hc cap ρ hcap := by
    split_ifs with hp
    · obtain ⟨d, hd, hl, hh, -⟩ := carrier_built hC h hc hcap hp ρ
      refine ⟨d, hd, hl, ?_⟩
      rw [hh]
      rcases emitHdr_fits C s true ρ with ⟨h0, -⟩ | ⟨h1, -⟩ | ⟨h1, -⟩
      · exact absurd h0 ((ttSessionRekeyPending_iff h ρ).mp hp)
      · exact Or.inr h1
      · exact Or.inl h1
    · exact ttSessionCarrier_idle h hc (by simpa using hp) cap ρ
  held hc cap ρ f hcap hf hne ops hops hd t ht := by
    cases hp : ttSessionRekeyPending s with
    | false =>
      rw [sessionOut, ttSessionCarrier_idle h hc hp] at hf
      exact absurd hf.symm hne
    | true =>
      obtain ⟨d, -, -, -, hpark, -, hlen⟩ := carrier_built hC h hc hcap hp ρ
      rw [hf] at hpark hlen
      have hi := lossyStep_inv hL h (.carrier cap ρ) hcap
      have hs := lossyRun_parked hL hi (by rwa [hpark]) (by rwa [hpark]) hops hd
      have hi' := lossyRun_inv hL hi hops
      rw [← ht] at hs hi'
      have hpark' : t.rekey.carrier = f := hs.carrier.trans hpark
      refine ⟨hs.send, ttSessionSendLossy_parked hi' (by rwa [hpark']), fun cap' ρ' hcap' => ?_⟩
      rw [ttSessionCarrier_parked hi' (by rwa [hpark']) (by rw [hpark']; omega), hpark']
  fold_first op hop hroot := by
    obtain ⟨cap, ρ, rfl, hc, hp, hh⟩ := lossyStep_root hC h hop hroot
    obtain ⟨d, hd, -, hdh, hpark, hne, hlen⟩ := carrier_built hC h hc hop hp ρ
    refine ⟨⟨d, hd, by rw [hdh, hh]⟩, fun ops next hops hnext hdone => ?_⟩
    have hi := lossyStep_inv hL h (.carrier cap ρ) hop
    have hs := lossyRun_parked hL hi (by rwa [hpark]) (by rwa [hpark]) hops hdone
    have hi' := lossyRun_inv hL hi hops
    have hpark' := hs.carrier.trans hpark
    by_cases hdn : next = .carrierDone
    · exact Or.inl (by rw [hdn]; rfl)
    · have ho := (lossyStep_parked hi' (by rwa [hpark']) hnext hdn (by rwa [hpark'])).2
      rwa [hpark'] at ho

/-- Every state an established lossy session reaches keeps the carrier contract. -/
theorem carrier_discipline (hC : C.AeadCorrect) (hL : C.LowOrderOnly) (h : LossyEstablished s)
    (ops : List SessionOp) (hops : ∀ op ∈ ops, lossyOp op) :
    CarrierDiscipline C (sessionRun C s ops) :=
  (lossyRun_inv hL h.inv hops).discipline hC hL

theorem carrier_discipline_published :
    CarrierDiscipline Instance.crypto (sessionRun Instance.crypto
      { Instance.alice with lossy := true }
      [.rekeyDue, .carrier ttFrameMax (Instance.draws 8), .sendLossy [1] ttFrameMax (Instance.draws 9),
        .carrierDone]) := by
  refine carrier_discipline Instance.aeadCorrect Instance.lowOrderOnly ?_ _ ?_
  · constructor <;> decide +kernel
  · intro op hop
    fin_cases hop <;> simp [lossyOp]

end TkTox
