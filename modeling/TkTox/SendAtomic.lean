import TkTox.FeedCases
import TkTox.Instance

/-!
Failed sends. What a call that emits a DATA frame leaves behind when the frame does not fit,
and which frames stand behind the publication flags.
-/

namespace TkTox

variable {C : Crypto} {s : TTSession} {cap : ℕ} {ρ : Draws}

inductive EmitCall
  | send (text : Bytes)
  | sendLossy (text : Bytes)
  | flush
  | carrier

def EmitCall.run (C : Crypto) (s : TTSession) (cap : ℕ) (ρ : Draws) :
    EmitCall → TTSession × Except TTE2EEStatus Bytes
  | .send text => ttSessionSend C s text cap ρ
  | .sendLossy text => ttSessionSendLossy C s text cap ρ
  | .flush => ttSessionFlush C s cap ρ
  | .carrier => ttSessionCarrier C s cap ρ

def EmitCall.emits (s : TTSession) : EmitCall → Option (Bytes × Bool)
  | .send text | .sendLossy text =>
    if text.length > ttFrameDataMax then none else some (text, false)
  | .flush => s.pending.head?.map (·, false)
  | .carrier =>
    if s.rekey.carrier ≠ [] ∨ ttSessionRekeyPending s = false then none else some ([], true)

def rekeyWanted (s : TTSession) : Bool :=
  s.rekey.rekeyDue || (!s.rekey.awaitingPeer && decide (s.send.sinceFold ≥ ttSessionRekeyEvery))

def dueHdrLen (C : Crypto) (s : TTSession) (carrierOnly : Bool) : ℕ :=
  if s.lossy && !carrierOnly then 0
  else if s.rekey.postFoldPublish then ttHdrDataKempub
  else if rekeyWanted s && s.rekey.peerHave then
    if (ttDhShared C s.rekey.ephSk s.rekey.peerEphPk).isSome then ttHdrDataRekey else 0
  else if rekeyWanted s && !s.rekey.awaitingPeer then ttHdrDataKempub
  else if s.rekey.publishBack then ttHdrDataKempub
  else 0

def FrameRoom (C : Crypto) (s : TTSession) (carrierOnly : Bool) (len cap : ℕ) : Prop :=
  13 + (if C.gcmIsAvailable then ttNonce12 else ttNonce24) + dueHdrLen C s carrierOnly + len +
    ttMac16 ≤ min ttFrameMax cap

instance FrameRoom.decidable (C : Crypto) (s : TTSession) (carrierOnly : Bool) (len cap : ℕ) :
    Decidable (FrameRoom C s carrierOnly len cap) :=
  inferInstanceAs (Decidable (_ ≤ _))

def EmitCall.Fits (C : Crypto) (s : TTSession) (cap : ℕ) (call : EmitCall) : Prop :=
  ∀ text carrierOnly, call.emits s = some (text, carrierOnly) →
    (s.lossy = true ∧ s.rekey.carrier ≠ []) ∨ FrameRoom C s carrierOnly text.length cap

def Publishes (k : TTRekey) (f : Bytes) : Prop :=
  ∃ d, ttFramePeek f = some d ∧ d.type = some .data ∧ d.hdr = kempubHdr k

structure SendAtomic (s : TTSession) (r : TTSession × Except TTE2EEStatus Bytes) : Prop where
  unchanged : ∀ e, r.2 = .error e → r.1 = s
  published : s.rekey.published = false → r.1.rekey.published = true →
    ∃ f, r.2 = .ok f ∧ Publishes r.1.rekey f
  awaiting : s.rekey.awaitingPeer = false → r.1.rekey.awaitingPeer = true →
    ∃ f, r.2 = .ok f ∧ Publishes r.1.rekey f

theorem autoRekey_eq (s : TTSession) :
    autoRekey s = { s.rekey with rekeyDue := rekeyWanted s } := by
  unfold autoRekey rekeyWanted
  by_cases h : s.rekey.awaitingPeer = false ∧ s.send.sinceFold ≥ ttSessionRekeyEvery
  · rw [if_pos h, h.1, decide_eq_true h.2, Bool.not_false, Bool.and_self, Bool.or_true]
  · have hf : (!s.rekey.awaitingPeer && decide (s.send.sinceFold ≥ ttSessionRekeyEvery)) =
        false := by simpa using h
    rw [if_neg h, hf, Bool.or_false]

theorem emitHdr_length (b : Bool) : (emitHdr C s b ρ).hdr.length = dueHdrLen C s b := by
  unfold emitHdr dueHdrLen
  by_cases hp : s.lossy = false ∨ b = true
  · have hl : (s.lossy && !b) = false := by
      cases hp with
      | inl h => simp [h]
      | inr h => simp [h]
    rw [if_pos hp, hl]
    rw [autoRekey_eq]
    simp only [Bool.false_eq_true, ↓reduceIte, selectHdr]
    split_ifs
    · exact kempubHdr_length _
    · cases hd : ttDhShared C s.rekey.ephSk s.rekey.peerEphPk with
      | none => simp_all
      | some dh => simp only [List.length_append, Blob.bytes_length]
    · cases hd : ttDhShared C s.rekey.ephSk s.rekey.peerEphPk with
      | none => rfl
      | some dh => simp_all
    · exact kempubHdr_length _
    · exact kempubHdr_length _
    · rfl
  · rw [if_neg hp, if_pos]
    · rfl
    · simpa using hp

theorem emitEncode_isSome_iff (hC : C.AeadCorrect) (cap : ℕ) (text : TTSentBuf → Bytes) (b : Bool) :
    (emitEncode C s text cap b ρ).isSome ↔ FrameRoom C s b (text s.rel.sent).length cap := by
  obtain ⟨hr, hl, hg⟩ := (emitHdr_fits C s b ρ).geometry (C := C)
  have hn := frameNonceLen_dataFlags C s b ρ
  have hh := emitHdr_length (C := C) (s := s) (ρ := ρ) b
  unfold FrameRoom emitEncode
  constructor
  · intro h
    obtain ⟨f, hf⟩ := Option.isSome_iff_exists.mp h
    obtain ⟨-, -, h1, h2, -⟩ := ttFrameEncode_eq_some hf
    rw [hn, hh] at h1 h2
    simp only [ttNonce12, ttNonce24, ttMac16, ttFrameMax] at h1 h2 ⊢
    omega
  · intro h
    simp only [ttNonce12, ttNonce24, ttMac16, ttFrameMax] at h
    apply Option.isSome_iff_exists.mpr
    apply ttFrameEncode_isSome hC s.send.seq _ _ hr hl _ hg
    rw [hn, hh]
    omega

def KeepsPublication (k k' : TTRekey) : Prop :=
  (k'.published = true → k.published = true) ∧ (k'.awaitingPeer = true → k.awaitingPeer = true) ∧
    kempubHdr k' = kempubHdr k

theorem KeepsPublication.refl (k : TTRekey) : KeepsPublication k k := ⟨id, id, rfl⟩

theorem KeepsPublication.trans {k l m : TTRekey} (h : KeepsPublication k l)
    (h' : KeepsPublication l m) : KeepsPublication k m :=
  ⟨h.1 ∘ h'.1, h.2.1 ∘ h'.2.1, h'.2.2.trans h.2.2⟩

theorem autoRekey_keepsPublication (s : TTSession) : KeepsPublication s.rekey (autoRekey s) := by
  unfold autoRekey
  split_ifs <;> exact ⟨id, id, rfl⟩

theorem emitHdr_publication (b : Bool) :
    (emitHdr C s b ρ).hdr = kempubHdr (emitHdr C s b ρ).rekey ∨
      KeepsPublication s.rekey (emitHdr C s b ρ).rekey := by
  have ha := autoRekey_keepsPublication s
  unfold emitHdr
  split_ifs
  · obtain ⟨-, h⟩ | ⟨-, -, -, -, h⟩ | ⟨-, -, -, dh, -, h⟩ | ⟨-, -, -, -, h⟩ | ⟨-, -, -, h⟩ |
      ⟨-, -, -, h⟩ := selectHdr_cases C (autoRekey s) ρ <;> rw [h]
    · exact Or.inl rfl
    · exact Or.inr ha
    · exact Or.inr ha
    · exact Or.inl rfl
    · exact Or.inl rfl
    · exact Or.inr ha
  · exact Or.inr ha

theorem finishFold_keepsPublication (t : TTSession) (fold : Option (Key × Key)) :
    KeepsPublication t.rekey (finishFold C t fold).rekey := by
  cases fold <;> exact ⟨id, id, rfl⟩

theorem parkCarrier_keepsPublication (t : TTSession) (hdr frame : Bytes) :
    KeepsPublication t.rekey (parkCarrier t hdr frame).rekey := by
  unfold parkCarrier
  split_ifs <;> exact ⟨id, id, rfl⟩

theorem emitDone_keepsPublication (text : TTSentBuf → Bytes) (b : Bool) (f : Bytes) :
    KeepsPublication (emitHdr C s b ρ).rekey (emitDone C s text b ρ f).rekey := by
  apply KeepsPublication.trans ?_ (parkCarrier_keepsPublication _ _ _)
  apply KeepsPublication.trans ?_ (finishFold_keepsPublication _ _)
  split_ifs <;> exact ⟨id, id, rfl⟩

theorem emitDone_publication {text : TTSentBuf → Bytes} {b : Bool} {f : Bytes}
    (hs : s.send.seq < 2 ^ 32) (h : emitEncode C s text cap b ρ = some f) :
    Publishes (emitDone C s text b ρ f).rekey f ∨
      KeepsPublication s.rekey (emitDone C s text b ρ f).rekey := by
  have hd := emitDone_keepsPublication (C := C) (s := s) (ρ := ρ) text b f
  cases emitHdr_publication (C := C) (s := s) (ρ := ρ) b with
  | inl hk =>
    obtain ⟨d, hp, ht, -, hh, -⟩ := emitEncode_peek hs h
    exact Or.inl ⟨d, hp, ht, by rw [hh, hk, hd.2.2]⟩
  | inr hk => exact Or.inr (hk.trans hd)

theorem sendAtomic_of_eq {r : TTSession × Except TTE2EEStatus Bytes} (h : r.1 = s) :
    SendAtomic s r := by
  refine ⟨fun _ _ => h, fun h0 h1 => ?_, fun h0 h1 => ?_⟩
  · rw [h, h0] at h1
    cases h1
  · rw [h, h0] at h1
    cases h1

theorem sendAtomic_of_emitDone {text : TTSentBuf → Bytes} {b : Bool} {f : Bytes}
    (rest : List Bytes) (hs : s.send.seq < 2 ^ 32) (h : emitEncode C s text cap b ρ = some f) :
    SendAtomic s ({ emitDone C s text b ρ f with pending := rest }, .ok f) := by
  cases emitDone_publication hs h with
  | inl hp => exact ⟨fun e he => (by cases he), fun _ _ => ⟨f, rfl, hp⟩, fun _ _ => ⟨f, rfl, hp⟩⟩
  | inr hk =>
    refine ⟨fun e he => (by cases he), fun h0 h1 => ?_, fun h0 h1 => ?_⟩
    · rw [hk.1 h1] at h0
      cases h0
    · rw [hk.2.1 h1] at h0
      cases h0

theorem emitDrawn_ne (b : Bool) : emitDrawn C s b ρ ≠ s := by
  intro h
  have hq : seqNext s.send.seq = s.send.seq := congrArg (fun t => t.send.seq) h
  unfold seqNext at hq
  omega

theorem EmitCall.run_cases (ha : s.active = true) (call : EmitCall) (cap : ℕ) (ρ : Draws) :
    (call.emits s = none ∧ (call.run C s cap ρ).1 = s) ∨
    ∃ text b, call.emits s = some (text, b) ∧
      ((s.lossy = true ∧ s.rekey.carrier ≠ [] ∧ (call.run C s cap ρ).1 = s) ∨
       ((s.lossy = true → s.rekey.carrier = []) ∧
          emitEncode C s (fun _ => text) cap b ρ = none ∧
          call.run C s cap ρ = (emitDrawn C s b ρ, .error .badState)) ∨
       ((s.lossy = true → s.rekey.carrier = []) ∧ ∃ f rest,
          emitEncode C s (fun _ => text) cap b ρ = some f ∧
          call.run C s cap ρ =
            ({ emitDone C s (fun _ => text) b ρ f with pending := rest }, .ok f))) := by
  have hemit (text : Bytes) (b : Bool) := emitFrame_cases C s (fun _ => text) cap b ρ
  cases call with
  | send text =>
    simp only [EmitCall.emits, EmitCall.run, ttSessionSend]
    split_ifs with h1 h2
    · exact Or.inl ⟨rfl, rfl⟩
    · simp [ha] at h2
    · simp [ha] at h2
    · simp [ha] at h2
    · refine Or.inr ⟨text, false, rfl, ?_⟩
      obtain ⟨hl, hc, h⟩ | ⟨hb, hn, h⟩ | ⟨hb, f, hf, h⟩ := hemit text false
      · exact Or.inl ⟨hl, hc, by rw [h]⟩
      · exact Or.inr (Or.inl ⟨hb, hn, h⟩)
      · exact Or.inr (Or.inr ⟨hb, f, _, hf, h⟩)
  | sendLossy text =>
    simp only [EmitCall.emits, EmitCall.run, ttSessionSendLossy]
    split_ifs with h1 h2
    · exact Or.inl ⟨rfl, rfl⟩
    · simp [ha] at h2
    · refine Or.inr ⟨text, false, rfl, ?_⟩
      obtain ⟨hl, hc, h⟩ | ⟨hb, hn, h⟩ | ⟨hb, f, hf, h⟩ := hemit text false
      · exact Or.inl ⟨hl, hc, by rw [h]⟩
      · exact Or.inr (Or.inl ⟨hb, hn, h⟩)
      · exact Or.inr (Or.inr ⟨hb, f, _, hf, h⟩)
  | flush =>
    simp only [EmitCall.emits, EmitCall.run, ttSessionFlush, ha]
    cases hpend : s.pending with
    | nil => exact Or.inl ⟨rfl, rfl⟩
    | cons text rest =>
      refine Or.inr ⟨text, false, rfl, ?_⟩
      dsimp only
      obtain ⟨hl, hc, h⟩ | ⟨hb, hn, h⟩ | ⟨hb, f, hf, h⟩ := hemit text false
      · exact Or.inl ⟨hl, hc, by rw [h]⟩
      · exact Or.inr (Or.inl ⟨hb, hn, by rw [h]⟩)
      · obtain ⟨-, -, hne⟩ := emitEncode_length_le hf
        cases f with
        | nil => exact absurd rfl hne
        | cons x f =>
          exact Or.inr (Or.inr ⟨hb, _, rest, hf, by rw [h]⟩)
  | carrier =>
    have hna : ¬ s.active = false := by simp [ha]
    by_cases hn : s.rekey.carrier ≠ [] ∨ ttSessionRekeyPending s = false
    · refine Or.inl ⟨if_pos hn, ?_⟩
      rw [EmitCall.run, ttSessionCarrier, if_neg hna]
      split_ifs with h1 h2 h3
      · rfl
      · rfl
      · rfl
      · exact absurd hn (not_or.mpr ⟨h1, h3⟩)
    · refine Or.inr ⟨[], true, if_neg hn, ?_⟩
      obtain ⟨hc, hp⟩ := not_or.mp hn
      rw [EmitCall.run, ttSessionCarrier, if_neg hna, if_neg hc, if_neg hp]
      obtain ⟨-, hc', -⟩ | ⟨hb, hnone, h⟩ | ⟨hb, f, hf, h⟩ := hemit [] true
      · exact absurd hc' hc
      · exact Or.inr (Or.inl ⟨hb, hnone, h⟩)
      · exact Or.inr (Or.inr ⟨hb, f, _, hf, h⟩)

theorem sendAtomic_iff (hC : C.AeadCorrect) (ha : s.active = true)
    (hs : s.send.seq < 2 ^ 32) (call : EmitCall) (cap : ℕ) (ρ : Draws) :
    SendAtomic s (call.run C s cap ρ) ↔ call.Fits C s cap := by
  unfold EmitCall.Fits
  obtain ⟨hn, hr⟩ | ⟨text, b, he, h⟩ := EmitCall.run_cases (C := C) ha call cap ρ
  · rw [hn]
    exact iff_of_true (sendAtomic_of_eq hr) fun text b h => by cases h
  have hroom := emitEncode_isSome_iff (s := s) (ρ := ρ) hC cap (fun _ => text) b
  obtain ⟨hl, hc, hr⟩ | ⟨hb, hnone, hr⟩ | ⟨hb, f, rest, hf, hr⟩ := h
  · exact iff_of_true (sendAtomic_of_eq hr) fun _ _ _ => Or.inl ⟨hl, hc⟩
  · apply iff_of_false
    · intro h
      rw [hr] at h
      exact emitDrawn_ne b (h.unchanged _ rfl)
    · intro h
      cases h text b he with
      | inl hp => exact hp.2 (hb hp.1)
      | inr hp =>
        rw [← hroom, hnone] at hp
        cases hp
  · rw [hr]
    refine iff_of_true (sendAtomic_of_emitDone rest hs hf) fun text' b' he' => Or.inr ?_
    rw [he] at he'
    cases he'
    rw [← hroom, hf]
    rfl

theorem fits_send_iff (hl : s.lossy = false) {text : Bytes} (ht : text.length ≤ ttFrameDataMax) :
    (EmitCall.send text).Fits C s cap ↔ FrameRoom C s false text.length cap := by
  have he : EmitCall.emits s (.send text) = some (text, false) := if_neg (not_lt.mpr ht)
  constructor
  · intro h
    cases h text false he with
    | inl hb =>
      rw [hl] at hb
      cases hb.1
    | inr hr => exact hr
  · intro h text' b hb
    rw [he] at hb
    cases hb
    exact Or.inr h

/-! ### Runs -/

def freshSession (lossy : Bool) : TTSession := { TTSession.zero with lossy := lossy }

def sessionSent (C : Crypto) : TTSession → List SessionOp → List Bytes
  | _, [] => []
  | s, op :: ops => sessionOut C s op :: sessionSent C (sessionStep C s op) ops

def PublishedSent (s : TTSession) (sent : List Bytes) : Prop :=
  s.rekey.published = true ∨ s.rekey.awaitingPeer = true → ∃ f ∈ sent, Publishes s.rekey f

def FlagsDown (k : TTRekey) : Prop := k.published = false ∧ k.awaitingPeer = false

def ResendFits (C : Crypto) (s : TTSession) (cap : ℕ) : Prop :=
  ∀ e ∈ s.rel.sent.entries, e.gen = s.rel.resendRepGen → s.rel.resendRepFrom ≤ e.seq →
    FrameRoom C s false e.data.length cap

def OpClean (C : Crypto) (s : TTSession) : SessionOp → Prop
  | .send text cap _ => s.active = true → (EmitCall.send text).Fits C s cap
  | .sendLossy text cap _ => s.active = true → (EmitCall.sendLossy text).Fits C s cap
  | .flush cap _ => s.active = true → EmitCall.flush.Fits C s cap
  | .carrier cap _ => s.active = true → EmitCall.carrier.Fits C s cap
  | .relPoll cap _ => s.rel.resendRepPending = true → ResendFits C s cap
  | .feed env _ input _ => ∀ d, ttFramePeek input = some d →
      (d.type = some .init → s.active = true → s.iAmInitiator = false →
        initOpens C env input d = false → FlagsDown s.rekey) ∧
      (d.type = some .data → d.hdr.length = ttHdrDataRekey → s.rekey.awaitingPeer = false)
  | _ => True

def RunClean (C : Crypto) : TTSession → List SessionOp → Prop
  | _, [] => True
  | s, op :: ops => OpClean C s op ∧ RunClean C (sessionStep C s op) ops

structure PublicationInv (s : TTSession) (sent : List Bytes) : Prop where
  seq : s.send.seq < 2 ^ 32
  inactive : s.active = false → FlagsDown s.rekey
  published : PublishedSent s sent

variable {sent : List Bytes} {t : TTSession} {out : Bytes}

theorem FlagsDown.not_or {k : TTRekey} (h : FlagsDown k) :
    ¬ (k.published = true ∨ k.awaitingPeer = true) := by
  rw [h.1, h.2]
  simp

theorem PublicationInv.down (hq : t.send.seq < 2 ^ 32) (hd : FlagsDown t.rekey) :
    PublicationInv t sent := ⟨hq, fun _ => hd, fun h => absurd h hd.not_or⟩

theorem FlagsDown.keep {k k' : TTRekey} (h : FlagsDown k) (hk : KeepsPublication k k') :
    FlagsDown k' :=
  ⟨Bool.eq_false_iff.mpr fun hp => h.not_or (Or.inl (hk.1 hp)),
    Bool.eq_false_iff.mpr fun hp => h.not_or (Or.inr (hk.2.1 hp))⟩

theorem Publishes.keep {k k' : TTRekey} {f : Bytes} (h : Publishes k f)
    (hk : KeepsPublication k k') : Publishes k' f := by
  rw [Publishes, hk.2.2]
  exact h

theorem PublicationInv.keep (h : PublicationInv s sent) (ha : t.active = s.active)
    (hq : t.send.seq < 2 ^ 32) (hk : KeepsPublication s.rekey t.rekey) :
    PublicationInv t (sent ++ [out]) := by
  refine ⟨hq, fun hn => (h.inactive (ha ▸ hn)).keep hk, fun hf => ?_⟩
  obtain ⟨f, hm, hp⟩ := h.published (hf.imp hk.1 hk.2.1)
  exact ⟨f, List.mem_append_left _ hm, hp.keep hk⟩

theorem PublicationInv.emit (h : PublicationInv s sent) (ha : t.active = s.active)
    (hact : s.active = true) (hq : t.send.seq < 2 ^ 32)
    (hk : Publishes t.rekey out ∨ KeepsPublication s.rekey t.rekey) :
    PublicationInv t (sent ++ [out]) := by
  cases hk with
  | inl hp =>
    refine ⟨hq, fun hn => ?_, fun _ => ⟨out, by simp, hp⟩⟩
    rw [ha, hact] at hn
    cases hn
  | inr hk => exact h.keep ha hq hk

theorem emitDone_seq (text : TTSentBuf → Bytes) (b : Bool) (f : Bytes) :
    (emitDone C s text b ρ f).send.seq = seqNext s.send.seq := by
  unfold emitDone parkCarrier finishFold
  cases (emitHdr C s b ρ).fold <;> split_ifs <;> rfl

theorem emitDone_active (text : TTSentBuf → Bytes) (b : Bool) (f : Bytes) :
    (emitDone C s text b ρ f).active = s.active := (emitDone_sameReceiver text b ρ f).1

theorem EmitCall.run_publication (hC : C.AeadCorrect) (ha : s.active = true)
    (hs : s.send.seq < 2 ^ 32) {call : EmitCall} (hfit : call.Fits C s cap) :
    (call.run C s cap ρ).1.active = s.active ∧ (call.run C s cap ρ).1.send.seq < 2 ^ 32 ∧
      (Publishes (call.run C s cap ρ).1.rekey (okBytes (call.run C s cap ρ).2) ∨
        KeepsPublication s.rekey (call.run C s cap ρ).1.rekey) := by
  have hsame (he : (call.run C s cap ρ).1 = s) :
      (call.run C s cap ρ).1.active = s.active ∧ (call.run C s cap ρ).1.send.seq < 2 ^ 32 ∧
      (Publishes (call.run C s cap ρ).1.rekey (okBytes (call.run C s cap ρ).2) ∨
        KeepsPublication s.rekey (call.run C s cap ρ).1.rekey) := by
    rw [he]
    exact ⟨rfl, hs, Or.inr (.refl _)⟩
  obtain ⟨-, hr⟩ | ⟨text, b, he, ⟨-, -, hr⟩ | ⟨hb, hn, -⟩ | ⟨-, f, rest, hf, hr⟩⟩ :=
    EmitCall.run_cases (C := C) ha call cap ρ
  · exact hsame hr
  · exact hsame hr
  · cases hfit text b he with
    | inl hp => exact absurd (hb hp.1) hp.2
    | inr hp =>
      rw [← emitEncode_isSome_iff hC _ (fun _ => text) (ρ := ρ), hn] at hp
      cases hp
  · rw [hr]
    exact ⟨emitDone_active _ _ _, by rw [emitDone_seq]; exact seqNext_lt _,
      emitDone_publication hs hf⟩

theorem readSlot_length (b : TTSentBuf) (i : Fin ttSentMax) :
    (TTSentBuf.readSlot i (b.m i).data.length b).length = (b.m i).data.length := by
  rw [TTSentBuf.readSlot, List.take_length, Nat.sub_self, List.replicate_zero, List.append_nil]

theorem relResend_publication (hC : C.AeadCorrect) (ρ : ℕ → Draws) (n r : ℕ)
    (hs : s.send.seq < 2 ^ 32) (hfit : ResendFits C s cap) (hr : r + n ≤ s.rel.sent.count) :
    (relResend C cap ρ n r s).1.send.seq < 2 ^ 32 ∧
      (Publishes (relResend C cap ρ n r s).1.rekey (relResend C cap ρ n r s).2 ∨
        KeepsPublication s.rekey (relResend C cap ρ n r s).1.rekey) := by
  induction n generalizing r with
  | zero => exact ⟨hs, Or.inr (.refl _)⟩
  | succ n ih =>
    have hrest := ih (r + 1) (by omega)
    unfold relResend
    dsimp only
    split_ifs with hw
    · exact hrest
    obtain ⟨hg, hq⟩ := not_or.mp hw
    have hmem : s.rel.sent.m (sentIdx (s.rel.sent.head + r)) ∈ s.rel.sent.entries :=
      Ring.mem_entries.mpr ⟨r, by omega, rfl⟩
    have hroom := hfit _ hmem (not_not.mp hg) (not_lt.mp hq)
    obtain ⟨-, -, h⟩ | ⟨-, hn, -⟩ | ⟨-, f, hf, h⟩ := emitFrame_cases C s
      (TTSentBuf.readSlot (sentIdx (s.rel.sent.head + r))
        (s.rel.sent.m (sentIdx (s.rel.sent.head + r))).data.length) cap false (ρ r)
    · rw [h]
      exact hrest
    · rw [← readSlot_length, ← emitEncode_isSome_iff hC _ _ false (ρ := ρ r), hn] at hroom
      cases hroom
    · obtain ⟨-, -, hne⟩ := emitEncode_length_le hf
      cases f with
      | nil => exact absurd rfl hne
      | cons x f =>
        rw [h]
        exact ⟨by rw [emitDone_seq]; exact seqNext_lt _, emitDone_publication hs hf⟩

theorem ttSessionRelPoll_publication (hC : C.AeadCorrect) (ρ : ℕ → Draws)
    (hs : s.send.seq < 2 ^ 32) (hfit : s.rel.resendRepPending = true → ResendFits C s cap) :
    (ttSessionRelPoll C s cap ρ).1.send.seq < 2 ^ 32 ∧
      (s.active = true ∧
          Publishes (ttSessionRelPoll C s cap ρ).1.rekey (ttSessionRelPoll C s cap ρ).2 ∨
        KeepsPublication s.rekey (ttSessionRelPoll C s cap ρ).1.rekey) := by
  unfold ttSessionRelPoll
  split_ifs with h1 h2 h3 h4
  · exact ⟨hs, Or.inr (.refl _)⟩
  · exact ⟨hs, Or.inr (.refl _)⟩
  · obtain ⟨hq, hp⟩ := relResend_publication hC ρ s.rel.sent.count 0 hs (hfit h3) (by omega)
    exact ⟨hq, hp.imp_left fun h => ⟨by simpa using h1, h⟩⟩
  · exact ⟨hs, Or.inr (.refl _)⟩
  · exact ⟨hs, Or.inr (.refl _)⟩

theorem applyHdr_publication (hdr : Bytes) (ρ : Draws)
    (hre : hdr.length = ttHdrDataRekey → s.rekey.awaitingPeer = false) :
    FlagsDown (applyHdr C s hdr ρ).rekey ∨
      KeepsPublication s.rekey (applyHdr C s hdr ρ).rekey := by
  unfold applyHdr
  split_ifs with h1 h2
  · unfold applyRekey
    dsimp only
    cases ttDhShared C s.rekey.ephSk (dataEphPk hdr) with
    | none => exact Or.inr (.refl _)
    | some dh => exact Or.inl ⟨rfl, hre h1⟩
  · unfold applyKempub
    cases ttDhShared C s.rekey.ephSk (pubEphPk hdr) with
    | none => exact Or.inr (.refl _)
    | some dh =>
      refine Or.inr ?_
      dsimp only
      split_ifs
      · exact ⟨id, fun h => (by cases h), rfl⟩
      · exact ⟨id, id, rfl⟩
      · exact ⟨id, id, rfl⟩
  · exact Or.inr (.refl _)

theorem EmitCall.run_inactive (C : Crypto) (cap : ℕ) (ρ : Draws) (hn : s.active = false) (call : EmitCall) :
    ∃ rest, (call.run C s cap ρ).1 = { s with pending := rest } := by
  cases call with
  | send text =>
    rw [EmitCall.run, ttSessionSend]
    split_ifs
    · exact ⟨s.pending, rfl⟩
    · exact ⟨s.pending, rfl⟩
    · exact ⟨s.pending ++ [text], rfl⟩
    · exact ⟨s.pending, rfl⟩
  | sendLossy text =>
    rw [EmitCall.run, ttSessionSendLossy, if_pos hn]
    split_ifs <;> exact ⟨s.pending, rfl⟩
  | flush =>
    refine ⟨s.pending, ?_⟩
    rw [EmitCall.run, ttSessionFlush]
    split
    · rename_i ha hp
      rw [hn] at ha
      cases ha
    · rfl
  | carrier =>
    rw [EmitCall.run, ttSessionCarrier, if_pos hn]
    exact ⟨s.pending, rfl⟩

theorem PublicationInv.run (hC : C.AeadCorrect) (h : PublicationInv s sent) (call : EmitCall)
    (hfit : s.active = true → call.Fits C s cap) :
    PublicationInv (call.run C s cap ρ).1 (sent ++ [okBytes (call.run C s cap ρ).2]) := by
  cases ha : s.active with
  | true =>
    obtain ⟨h1, h2, h3⟩ := EmitCall.run_publication (ρ := ρ) hC ha h.seq (hfit ha)
    exact h.emit h1 ha h2 h3
  | false =>
    obtain ⟨rest, hr⟩ := EmitCall.run_inactive C cap ρ ha call
    rw [hr]
    exact h.keep rfl h.seq (.refl _)

theorem PublicationInv.acceptInit (h : PublicationInv s sent) {env : TTE2EEEnv} {input : Bytes}
    {d : TTFrameDesc} {peerPk : Key} (hp : ttFramePeek input = some d)
    (hd : s.active = true → FlagsDown s.rekey) :
    PublicationInv (acceptInit C s env peerPk ρ input d).session (sent ++ [out]) := by
  have hdown : FlagsDown s.rekey := by
    cases ha : s.active with
    | true => exact hd ha
    | false => exact h.inactive ha
  obtain ⟨-, e, hr⟩ | ⟨-, -, key, hr⟩ | ⟨-, key, f, -, hr⟩ :=
    acceptInit_cases C s env ρ peerPk hp
  · rw [hr]
    exact h.keep rfl h.seq (.refl _)
  · rw [hr]
    exact h.keep rfl h.seq (.refl _)
  · rw [hr]
    refine .down ?_ ⟨hdown.1, hdown.2⟩
    change (1 : ℕ) < 2 ^ 32
    norm_num

theorem PublicationInv.feed (h : PublicationInv s sent) {env : TTE2EEEnv} {input : Bytes}
    {ptCap : ℕ} (hop : OpClean C s (.feed env ρ input ptCap)) :
    PublicationInv (ttSessionFeed C s env ρ input ptCap).session (sent ++ [out]) := by
  have hsame : PublicationInv s (sent ++ [out]) := h.keep rfl h.seq (.refl _)
  obtain hf | ⟨d, hp, ⟨ht, hf⟩ | ⟨ht, hf⟩ | ⟨type, -, -, hf⟩ | ⟨ht, last, hf⟩⟩ :=
    ttSessionFeed_dispatch (C := C) s env ρ input ptCap <;> rw [hf]
  · exact hsame
  · by_cases hr : initReachesOpen C s env input d
    · cases feedInit_fresh (ρ := ρ) hr with
      | inl he =>
        rw [he]
        exact hsame
      | inr he =>
        rw [he]
        unfold initTarget
        split_ifs with hi
        -- the yielding initiator starts from a cleared session
        · apply PublicationInv.acceptInit (.down (by norm_num [reestablishPreserve,
            TTSession.zero, TTRatchet.zero]) ⟨rfl, rfl⟩) hp
          exact fun _ => ⟨rfl, rfl⟩
        · refine h.acceptInit hp fun ha => ?_
          have hi' : s.iAmInitiator = false := by simpa [ha] using hi
          refine (hop d hp).1 ht ha hi' ?_
          simpa [ha, hi'] using hr.2.2.2
    · rw [(feedInit_early ht hr).1]
      exact hsame
  · obtain ⟨r, he⟩ | ⟨-, ha, -, -, f, -, he⟩ := feedReply_cases C s env ρ hp
    · rw [he]
      exact hsame
    · rw [he]
      refine .down ?_ ⟨(h.inactive ha).1, (h.inactive ha).2⟩
      change (1 : ℕ) < 2 ^ 32
      norm_num
  · obtain ⟨r, he⟩ | ⟨-, -, -, d', payload, -, -, he⟩ := feedControl_cases C s input d type
    · rw [he]
      exact hsame
    · rw [he]
      exact h.keep rfl h.seq (.refl _)
  · obtain ⟨e, he⟩ | ⟨-, key, taken, -, -, he⟩ | ⟨-, key, taken, pt, -, hdec, he⟩ :=
      feedData_cases (C := C) (s := { s with lastIn := last }) (ρ := ρ) ptCap hp
    · rw [he]
      exact h.keep rfl h.seq (.refl _)
    · obtain ⟨recv, rel, hr⟩ := dataReject_frame (C := C) { s with lastIn := last } d.seq key taken
      rw [he, hr]
      exact h.keep rfl h.seq (.refl _)
    · rw [he]
      have hdata : d.type = some .data := by
        cases ht with
        | inl ht => exact ht
        | inr ht =>
          have := ttFrameDecode_type_isSome hdec
          rw [ht] at this
          cases this
      obtain ⟨rel, hm⟩ := ackMark_frame { s with
        lastIn := last
        recv := taken.getD (recvCommit C s.recv d.seq) }
      have hk := applyHdr_publication (C := C) (s := ackMark { s with
        lastIn := last
        recv := taken.getD (recvCommit C s.recv d.seq) }) d.hdr ρ (by
          rw [hm]
          exact (hop d hp).2 hdata)
      obtain ⟨recv, rekey, hx⟩ := applyHdr_frame (C := C) (ackMark { s with
        lastIn := last
        recv := taken.getD (recvCommit C s.recv d.seq) }) d.hdr ρ
      change PublicationInv (applyHdr C (ackMark _) d.hdr ρ) _
      rw [hx] at hk ⊢
      rw [hm] at hk ⊢
      cases hk with
      | inl hd => exact .down h.seq hd
      | inr hk => exact h.keep rfl h.seq hk

theorem PublicationInv.step (hC : C.AeadCorrect) (h : PublicationInv s sent) (op : SessionOp)
    (hop : OpClean C s op) :
    PublicationInv (sessionStep C s op) (sent ++ [sessionOut C s op]) := by
  cases op with
  | start env ρ now cap =>
    rw [sessionStep, ttSessionStart]
    split
    · exact h.keep rfl h.seq (.refl _)
    dsimp only
    split
    · exact .down (by norm_num [reestablishPreserve, TTSession.zero, TTRatchet.zero]) ⟨rfl, rfl⟩
    split <;>
      exact .down (by norm_num [reestablishPreserve, TTSession.zero, TTRatchet.zero]) ⟨rfl, rfl⟩
  | reply env ρ cap =>
    rw [sessionStep, ttSessionReply]
    split
    · exact h.keep rfl h.seq (.refl _)
    split_ifs
    · exact h.keep rfl h.seq (.refl _)
    · exact h.keep rfl h.seq (.refl _)
    dsimp only
    split
    · exact h.keep rfl h.seq (.refl _)
    split <;> exact h.keep rfl h.seq (.refl _)
  | tick env ρ now cap =>
    rw [sessionStep, ttSessionTick]
    split_ifs <;> exact h.keep rfl h.seq (.refl _)
  | feed env ρ input ptCap => exact h.feed hop
  | send text cap ρ => exact h.run hC (.send text) hop
  | sendLossy text cap ρ => exact h.run hC (.sendLossy text) hop
  | flush cap ρ => exact h.run hC .flush hop
  | carrier cap ρ => exact h.run hC .carrier hop
  | relPoll cap ρ =>
    obtain ⟨hq, hp⟩ := ttSessionRelPoll_publication hC ρ h.seq hop
    have ha := (ttSessionRelPoll_sameReceiver (C := C) (s := s) cap ρ).1
    cases hp with
    | inl hp => exact h.emit ha hp.1 hq (Or.inl hp.2)
    | inr hk => exact h.keep ha hq hk
  | carrierDone => exact h.keep rfl h.seq ⟨id, id, rfl⟩
  | rekeyDue =>
    rw [sessionStep, ttSessionRekeyDue]
    split_ifs
    · exact h.keep rfl h.seq ⟨id, id, rfl⟩
    · exact h.keep rfl h.seq (.refl _)

theorem PublicationInv.sessionRun (hC : C.AeadCorrect) (h : PublicationInv s sent)
    (ops : List SessionOp) (hops : RunClean C s ops) :
    PublicationInv (sessionRun C s ops) (sent ++ sessionSent C s ops) := by
  induction ops generalizing s sent with
  | nil =>
    rw [sessionSent, List.append_nil]
    exact h
  | cons op ops ih =>
    have := ih (h.step hC op hops.1) hops.2
    rw [List.append_assoc] at this
    exact this

/-- A call is atomic exactly when its frame fits, and in a run of calls that fit a raised
publication flag means that the pair was sent. -/
theorem sendAtomic_iff_fits (hC : C.AeadCorrect) :
    (∀ s : TTSession, s.active = true → s.send.seq < 2 ^ 32 → ∀ call cap ρ,
      (SendAtomic s (EmitCall.run C s cap ρ call) ↔ call.Fits C s cap)) ∧
    ∀ lossy ops, RunClean C (freshSession lossy) ops →
      PublishedSent (sessionRun C (freshSession lossy) ops)
        (sessionSent C (freshSession lossy) ops) := by
  refine ⟨fun s ha hs call cap ρ => sendAtomic_iff hC ha hs call cap ρ, fun lossy ops hops => ?_⟩
  have h : PublicationInv (freshSession lossy) [] :=
    .down (by norm_num [freshSession, TTSession.zero, TTRatchet.zero]) ⟨rfl, rfl⟩
  have := (h.sessionRun hC ops hops).published
  rwa [List.nil_append] at this

namespace Instance

def aliceRekeying : TTSession := ttSessionRekeyDue alice

def lostPublication : TTSession × Except TTE2EEStatus Bytes :=
  ttSessionSend crypto aliceRekeying (List.replicate 300 7) ttFrameMax (draws 5)

-- The publication does not fit beside 300 bytes: the call fails, yet the key is spent and the
-- keypair counts as published.
theorem lostPublication_not_atomic :
    aliceRekeying.active = true ∧ 300 ≤ ttFrameDataMax ∧
      ¬ SendAtomic aliceRekeying lostPublication ∧
      lostPublication.2 = .error .badState ∧
      aliceRekeying.send.seq ≠ lostPublication.1.send.seq ∧
      aliceRekeying.rekey.published = false ∧ lostPublication.1.rekey.published = true ∧
      aliceRekeying.rekey.awaitingPeer = false ∧ lostPublication.1.rekey.awaitingPeer = true := by
  have he : lostPublication.2 = .error .badState := by decide +kernel
  have hq : aliceRekeying.send.seq ≠ lostPublication.1.send.seq := by decide +kernel
  have hf : aliceRekeying.active = true ∧ aliceRekeying.rekey.published = false ∧
      lostPublication.1.rekey.published = true ∧ aliceRekeying.rekey.awaitingPeer = false ∧
      lostPublication.1.rekey.awaitingPeer = true := by decide +kernel
  obtain ⟨ha, h1, h2, h3, h4⟩ := hf
  refine ⟨ha, by decide, fun h => ?_, he, hq, h1, h2, h3, h4⟩
  apply hq
  rw [h.unchanged _ he]

def publishingRun : List SessionOp :=
  [.start aliceEnv (draws 1) 0 ttFrameMax, .feed aliceEnv (draws 4) replyFrame ttFrameDataMax,
    .rekeyDue, .send [1] ttFrameMax (draws 5)]

theorem sendAtomic_iff_fits_publication :
    SendAtomic aliceRekeying
        (EmitCall.run crypto aliceRekeying ttFrameMax (draws 5) (.send (List.replicate 129 7))) ∧
      ¬ SendAtomic aliceRekeying
        (EmitCall.run crypto aliceRekeying ttFrameMax (draws 5) (.send (List.replicate 130 7))) ∧
      PublishedSent (sessionRun crypto (freshSession false) publishingRun)
        (sessionSent crypto (freshSession false) publishingRun) := by
  obtain ⟨hcall, hrun⟩ := sendAtomic_iff_fits aeadCorrect
  have hs : aliceRekeying.active = true ∧ aliceRekeying.send.seq < 2 ^ 32 ∧
      FrameRoom crypto aliceRekeying false 129 ttFrameMax ∧
      ¬ FrameRoom crypto aliceRekeying false 130 ttFrameMax ∧
      aliceRekeying.lossy = false := by decide +kernel
  obtain ⟨ha, hq, h1, h2, hl⟩ := hs
  refine ⟨?_, ?_, hrun false publishingRun ?_⟩
  · rw [hcall _ ha hq, fits_send_iff hl (by rw [List.length_replicate]; decide),
      List.length_replicate]
    exact h1
  · rw [hcall _ ha hq, fits_send_iff hl (by rw [List.length_replicate]; decide),
      List.length_replicate]
    exact h2
  · refine ⟨trivial, ?_, trivial, ?_, trivial⟩
    · have ht : ∀ d, ttFramePeek replyFrame = some d → d.type = some .reply := by
        have h : (ttFramePeek replyFrame).all (fun d => d.type == some .reply) = true := by
          decide +kernel
        intro d hd
        rw [hd] at h
        simpa using h
      intro d hd
      rw [ht d hd]
      exact ⟨fun h => (by cases h), fun h => (by cases h)⟩
    · intro _
      rw [fits_send_iff (by decide +kernel) (by decide)]
      decide +kernel

end Instance

end TkTox
