import TkTox.SessionSend

/-!
The outcomes of feeding a frame, type by type: which session each of them leaves, and what
the frame must have passed to get there.
-/

namespace TkTox

variable {C : Crypto} {s : TTSession} {env : TTE2EEEnv} {ρ : Draws} {input : Bytes}
  {d : TTFrameDesc} {peerPk : Key}

def initAuthentic (C : Crypto) (env : TTE2EEEnv) (input : Bytes) (d : TTFrameDesc) : Prop :=
  ∃ key r, sealKeyDerive C env.selfSk (hdrEph1 d.hdr) env.selfPk = some key ∧
    ttFrameDecode C input key 16 = some r

def initLegs (C : Crypto) (env : TTE2EEEnv) (ρ : Draws) (peerPk : Key) (hdr : Bytes) :
    Option (Key × Key × Key) :=
  dhLegs C ρ.eph1 peerPk env.selfSk (hdrEph1 hdr) ρ.eph2 (hdrEph2 hdr)

def initLegsAccepted (C : Crypto) (env : TTE2EEEnv) (ρ : Draws) (peerPk : Key) (d : TTFrameDesc) :
    Prop :=
  (initLegs C env ρ peerPk d.hdr).isSome

def initReachesOpen (C : Crypto) (s : TTSession) (env : TTE2EEEnv) (input : Bytes)
    (d : TTFrameDesc) : Prop :=
  d.type = some .init ∧ d.hdr.length = ttHdrInit ∧ env.peerPk = some (hdrIk d.hdr) ∧
    (s.active && !s.iAmInitiator && initOpens C env input d) = false

def initRetransmit (C : Crypto) (s : TTSession) (env : TTE2EEEnv) (input : Bytes) : Bool :=
  match ttFramePeek input with
  | some d => d.type == some .init && (s.active && !s.iAmInitiator && initOpens C env input d)
  | none => false

def establishesOn (C : Crypto) (s : TTSession) (env : TTE2EEEnv) (ρ : Draws) (input : Bytes)
    (ptCap : ℕ) : Bool :=
  (ttSessionFeed C s env ρ input ptCap).handshaked && !initRetransmit C s env input

def acceptedInit (C : Crypto) (s : TTSession) (env : TTE2EEEnv) (peerPk : Key) (ρ : Draws)
    (key : Key) (hdr : Bytes) (f : Key × Key × Key) : TTSession :=
  { establish C (responderScratch C s ρ key hdr) f.1 f.2.1 f.2.2
      (ttKemEnc C ρ.encSeed (hdrKemPk hdr)).2 peerPk env.selfPk false ρ with
    iAmInitiator := false, active := true, replyDue := true, initPending := false }

def acceptedReply (C : Crypto) (s : TTSession) (env : TTE2EEEnv) (peerPk : Key) (ρ : Draws)
    (hdr : Bytes) (f : Key × Key × Key) : TTSession :=
  { establish C s f.1 f.2.1 f.2.2 (ttKemDec C (hdrKemCt hdr) s.kemSk) env.selfPk peerPk true ρ with
    initPending := false, iAmInitiator := true, active := true }

theorem eq_of_decode_peek {key : Key} {cap : ℕ} {r : TTFrameDesc × Bytes}
    (hp : ttFramePeek input = some d) (hd : ttFrameDecode C input key cap = some r) : r.1 = d := by
  have := ttFrameDecode_isSome_peek hd
  rw [hp] at this
  exact (Option.some.inj this).symm

variable (C s env ρ peerPk) in
theorem acceptInit_cases (hp : ttFramePeek input = some d) :
    (¬ initAuthentic C env input d ∧
      ∃ e, acceptInit C s env peerPk ρ input d = ⟨s, .error e, false⟩) ∨
    (initAuthentic C env input d ∧ ¬ initLegsAccepted C env ρ peerPk d ∧
      ∃ key, acceptInit C s env peerPk ρ input d =
        ⟨responderScratch C s ρ key d.hdr, .error .badId, false⟩) ∨
    (initAuthentic C env input d ∧ ∃ key f, initLegs C env ρ peerPk d.hdr = some f ∧
      acceptInit C s env peerPk ρ input d =
        ⟨acceptedInit C s env peerPk ρ key d.hdr f, .ok [], true⟩) := by
  unfold acceptInit
  cases hk : sealKeyDerive C env.selfSk (hdrEph1 d.hdr) env.selfPk with
  | none =>
    refine Or.inl ⟨?_, .badId, rfl⟩
    rintro ⟨key, r, hk', -⟩
    rw [hk] at hk'
    cases hk'
  | some key =>
    dsimp only
    cases hd : ttFrameDecode C input key 16 with
    | none =>
      refine Or.inl ⟨?_, .decodeFail, rfl⟩
      rintro ⟨key', r, hk', hd'⟩
      rw [hk] at hk'
      cases hk'
      rw [hd] at hd'
      cases hd'
    | some r =>
      obtain ⟨d', pt⟩ := r
      have he : d' = d := eq_of_decode_peek hp hd
      subst he
      have ha : initAuthentic C env input d' := ⟨key, _, hk, hd⟩
      cases hl : initLegs C env ρ peerPk d'.hdr with
      | none =>
        refine Or.inr (Or.inl ⟨ha, by simp [initLegsAccepted, hl], key, ?_⟩)
        rw [initLegs] at hl
        simp only [responderScratch, ttDhKeygen, hl]
      | some f =>
        refine Or.inr (Or.inr ⟨ha, key, f, rfl, ?_⟩)
        rw [initLegs] at hl
        simp only [responderScratch, ttDhKeygen, hl, acceptedInit]

theorem feedInit_early (ht : d.type = some .init) (hr : ¬ initReachesOpen C s env input d) :
    (feedInit C s env ρ input d).session = s ∧
      ((feedInit C s env ρ input d).handshaked = true →
        s.active = true ∧ s.iAmInitiator = false ∧ initOpens C env input d = true) := by
  unfold feedInit
  by_cases hl : d.hdr.length = ttHdrInit
  · cases hp : env.peerPk with
    | none => simp [hl]
    | some peerPk =>
      by_cases hi : hdrIk d.hdr = peerPk
      · by_cases hret : (s.active && !s.iAmInitiator && initOpens C env input d) = true
        · simp only [hl, hi, hret, ne_eq, not_true_eq_false, ↓reduceIte, true_and, true_imp_iff]
          simpa [and_assoc] using hret
        · exact absurd ⟨ht, hl, by rw [hp, hi], by simpa using hret⟩ hr
      · simp [hl, hi]
  · simp [hl]

theorem feedInit_reaches (hr : initReachesOpen C s env input d) :
    feedInit C s env ρ input d =
      if s.iAmInitiator && (s.active || s.initPending) then
        if yieldsTo s env d then
          acceptInit C (reestablishPreserve s) env (hdrIk d.hdr) ρ input d
        else ⟨s, .ok [], false⟩
      else acceptInit C s env (hdrIk d.hdr) ρ input d := by
  obtain ⟨-, hl, hp, hret⟩ := hr
  simp only [feedInit, hl, hp, hret, ne_eq, not_true_eq_false, ↓reduceIte, Bool.false_eq_true]

variable (C s env ρ) in
theorem feedReply_cases (hp : ttFramePeek input = some d) :
    (∃ ret, feedReply C s env ρ input d = ⟨s, ret, false⟩) ∨
    (s.initPending = true ∧ s.active = false ∧ d.hdr.length = ttHdrReply ∧
      env.peerPk = some (hdrIk d.hdr) ∧
      ∃ f, dhLegs C env.selfSk (hdrEph1 d.hdr) s.ephA2Sk (hdrIk d.hdr) s.ephA3Sk
          (hdrEph2 d.hdr) = some f ∧
        feedReply C s env ρ input d =
          ⟨acceptedReply C s env (hdrIk d.hdr) ρ d.hdr f, .ok [], true⟩) := by
  unfold feedReply
  by_cases h1 : s.initPending = false ∨ s.active
  · exact Or.inl ⟨_, if_pos h1⟩
  by_cases h2 : d.hdr.length ≠ ttHdrReply
  · exact Or.inl ⟨.error .decodeFail, by rw [if_neg h1, if_pos h2]⟩
  simp only [if_neg h1, if_neg h2]
  cases hpk : env.peerPk with
  | none => exact Or.inl ⟨_, rfl⟩
  | some peerPk =>
    dsimp only
    by_cases h3 : hdrIk d.hdr ≠ peerPk
    · exact Or.inl ⟨_, if_pos h3⟩
    rw [if_neg h3]
    rw [not_not] at h2 h3
    subst h3
    simp only [not_or, Bool.not_eq_false, Bool.not_eq_true] at h1
    cases sealKeyDerive C env.selfSk (hdrEph1 d.hdr) env.selfPk with
    | none => exact Or.inl ⟨_, rfl⟩
    | some key =>
      dsimp only
      cases hd : ttFrameDecode C input key 16 with
      | none => exact Or.inl ⟨_, rfl⟩
      | some r =>
        obtain ⟨d', pt⟩ := r
        have he : d' = d := eq_of_decode_peek hp hd
        subst he
        dsimp only
        cases dhLegs C env.selfSk (hdrEph1 d'.hdr) s.ephA2Sk (hdrIk d'.hdr) s.ephA3Sk
          (hdrEph2 d'.hdr) with
        | none => exact Or.inl ⟨_, rfl⟩
        | some f => exact Or.inr ⟨h1.1, h1.2, h2, rfl, f, rfl, rfl⟩

def initTarget (s : TTSession) : TTSession :=
  if s.iAmInitiator && (s.active || s.initPending) then reestablishPreserve s else s

theorem feedInit_fresh (hr : initReachesOpen C s env input d) :
    feedInit C s env ρ input d = ⟨s, .ok [], false⟩ ∨
      feedInit C s env ρ input d = acceptInit C (initTarget s) env (hdrIk d.hdr) ρ input d := by
  rw [feedInit_reaches hr, initTarget]
  split_ifs
  · exact Or.inr rfl
  · exact Or.inl rfl
  · exact Or.inr rfl

theorem feedInit_handshaked (hp : ttFramePeek input = some d) (ht : d.type = some .init)
    (h : (feedInit C s env ρ input d).handshaked = true) :
    (s.active = true ∧ s.iAmInitiator = false ∧ (feedInit C s env ρ input d).session = s) ∨
    (initReachesOpen C s env input d ∧ ∃ key f,
      initLegs C env ρ (hdrIk d.hdr) d.hdr = some f ∧
      feedInit C s env ρ input d =
        ⟨acceptedInit C (initTarget s) env (hdrIk d.hdr) ρ key d.hdr f, .ok [], true⟩) := by
  by_cases hr : initReachesOpen C s env input d
  · refine Or.inr ⟨hr, ?_⟩
    rcases feedInit_fresh (ρ := ρ) hr with hf | hf
    · rw [hf] at h
      cases h
    · rw [hf] at h ⊢
      rcases acceptInit_cases C (initTarget s) env ρ (hdrIk d.hdr) hp with ⟨-, e, he⟩ | ⟨-, -, key, he⟩ | ⟨-, key, f, hl, he⟩
      · rw [he] at h
        cases h
      · rw [he] at h
        cases h
      · exact ⟨key, f, hl, he⟩
  · obtain ⟨hs, hh⟩ := feedInit_early (ρ := ρ) ht hr
    obtain ⟨ha, hi, -⟩ := hh h
    exact Or.inl ⟨ha, hi, hs⟩

def controlRel (rel : TTReliable) (type : TTFrameType) (payload : Bytes) : TTReliable :=
  if type = .ack then
    { rel with sent := relSentAck rel.sent (readU32 (payload.drop 4)) (readU32 payload) }
  else
    { rel with
      resendRepPending := true, resendRepGen := readU32 payload
      resendRepFrom := readU32 (payload.drop 4), resendRepPos := 0 }

variable (C s input d) in
theorem feedControl_cases (type : TTFrameType) :
    (∃ ret, feedControl C s type input d = ⟨s, ret, false⟩) ∨
    (s.active = true ∧ s.lossy = false ∧ d.hdr.length = 0 ∧
      ∃ d' payload, ttFrameDecode C input (controlKey C s.root) 16 = some (d', payload) ∧
        payload.length = 8 ∧
        feedControl C s type input d =
          ⟨{ s with rel := controlRel s.rel type payload }, .ok [], false⟩) := by
  unfold feedControl
  by_cases h1 : s.active = false
  · exact Or.inl ⟨_, if_pos h1⟩
  by_cases h2 : s.lossy = true
  · exact Or.inl ⟨.error .decodeFail, by rw [if_neg h1, if_pos h2]⟩
  by_cases h3 : d.hdr.length ≠ 0
  · exact Or.inl ⟨.error .decodeFail, by rw [if_neg h1, if_neg h2, if_pos h3]⟩
  rw [if_neg h1, if_neg h2, if_neg h3]
  cases hd : ttFrameDecode C input (controlKey C s.root) 16 with
  | none => exact Or.inl ⟨_, rfl⟩
  | some r =>
    obtain ⟨d', payload⟩ := r
    dsimp only
    by_cases h4 : payload.length ≠ 8
    · exact Or.inl ⟨_, if_pos h4⟩
    rw [if_neg h4]
    refine Or.inr ⟨by simpa using h1, by simpa using h2, by simpa using h3, d', payload, rfl,
      by simpa using h4, ?_⟩
    unfold controlRel
    by_cases ht : type = .ack
    · simp only [if_pos ht]
    · simp only [if_neg ht]

theorem recvKey_cases {r : TTRatchet} {seq : ℕ} {key : Key} {taken : Option TTRatchet}
    (h : recvKey C r seq = .ok (key, taken)) :
    (taken = none ∧ r.seq ≤ seq ∧ seq - r.seq < ttSessionMaxSkip ∧
      key = (msgKeyAt C r seq).1) ∨
    ∃ r', taken = some r' ∧ seq < r.seq ∧ skippedTake r seq = some (key, r') := by
  unfold recvKey at h
  split_ifs at h with h1 h2 h3
  · cases h
    exact Or.inl ⟨rfl, h1.ge, by simp [h1], rfl⟩
  · cases h
    exact Or.inl ⟨rfl, h2.le, by omega, rfl⟩
  · cases ht : skippedTake r seq with
    | none => rw [ht] at h; cases h
    | some p =>
      rw [ht] at h
      cases h
      exact Or.inr ⟨_, rfl, by omega, rfl⟩

def acceptedData (C : Crypto) (s : TTSession) (ρ : Draws) (d : TTFrameDesc)
    (taken : Option TTRatchet) : TTSession :=
  applyHdr C (ackMark { s with recv := taken.getD (recvCommit C s.recv d.seq) }) d.hdr ρ

theorem feedData_cases (cap : ℕ) (hp : ttFramePeek input = some d) :
    (∃ e, feedData C s ρ input d cap = ⟨s, .error e, false⟩) ∨
    (s.active = true ∧ ∃ key taken, recvKey C s.recv d.seq = .ok (key, taken) ∧
      ttFrameDecode C input key cap = none ∧
      feedData C s ρ input d cap =
        ⟨dataReject C s d.seq key taken, .error .decodeFail, false⟩) ∨
    (s.active = true ∧ ∃ key taken pt, recvKey C s.recv d.seq = .ok (key, taken) ∧
      ttFrameDecode C input key cap = some (d, pt) ∧
      feedData C s ρ input d cap = ⟨acceptedData C s ρ d taken, .ok pt, false⟩) := by
  unfold feedData
  by_cases h1 : s.active = false
  · exact Or.inl ⟨_, if_pos h1⟩
  rw [if_neg h1]
  split_ifs with h2
  · exact Or.inl ⟨_, rfl⟩
  have ha : s.active = true := by simpa using h1
  cases hk : recvKey C s.recv d.seq with
  | error e => exact Or.inl ⟨e, rfl⟩
  | ok p =>
    obtain ⟨key, taken⟩ := p
    dsimp only
    cases hd : ttFrameDecode C input key cap with
    | none => exact Or.inr (Or.inl ⟨ha, key, taken, rfl, hd, rfl⟩)
    | some r =>
      obtain ⟨d', pt⟩ := r
      have he : d' = d := eq_of_decode_peek hp hd
      subst he
      exact Or.inr (Or.inr ⟨ha, key, taken, pt, rfl, hd, rfl⟩)

theorem ttSessionFeed_dispatch (s : TTSession) (env : TTE2EEEnv) (ρ : Draws) (input : Bytes)
    (cap : ℕ) :
    ttSessionFeed C s env ρ input cap = ⟨s, .error .decodeFail, false⟩ ∨
    ∃ d, ttFramePeek input = some d ∧
      ((d.type = some .init ∧ ttSessionFeed C s env ρ input cap = feedInit C s env ρ input d) ∨
        (d.type = some .reply ∧ ttSessionFeed C s env ρ input cap = feedReply C s env ρ input d) ∨
        (∃ type, d.type = some type ∧ (type = .ack ∨ type = .resend) ∧
          ttSessionFeed C s env ρ input cap = feedControl C s type input d) ∨
        ((d.type = some .data ∨ d.type = none) ∧ ∃ last,
          ttSessionFeed C s env ρ input cap = feedData C { s with lastIn := last } ρ input d cap)) := by
  unfold ttSessionFeed
  cases hp : ttFramePeek input with
  | none => exact Or.inl rfl
  | some d =>
    refine Or.inr ⟨d, rfl, ?_⟩
    dsimp only
    cases ht : d.type with
    | none => exact Or.inr (Or.inr (Or.inr ⟨Or.inr rfl, s.lastIn, rfl⟩))
    | some type =>
      cases type with
      | init => exact Or.inl ⟨rfl, rfl⟩
      | reply => exact Or.inr (Or.inl ⟨rfl, rfl⟩)
      | data => exact Or.inr (Or.inr (Or.inr ⟨Or.inl rfl, input, rfl⟩))
      | ack => exact Or.inr (Or.inr (Or.inl ⟨.ack, rfl, Or.inl rfl, rfl⟩))
      | resend => exact Or.inr (Or.inr (Or.inl ⟨.resend, rfl, Or.inr rfl, rfl⟩))

theorem applyHdr_frame (s : TTSession) (hdr : Bytes) (ρ : Draws) :
    ∃ recv rekey, applyHdr C s hdr ρ = { s with recv := recv, rekey := rekey } := by
  unfold applyHdr applyRekey applyKempub
  by_cases h1 : hdr.length = ttHdrDataRekey
  · rw [if_pos h1]
    dsimp only
    cases ttDhShared C s.rekey.ephSk (dataEphPk hdr) with
    | none => exact ⟨s.recv, s.rekey, rfl⟩
    | some dh => exact ⟨_, _, rfl⟩
  rw [if_neg h1]
  by_cases h2 : hdr.length = ttHdrDataKempub
  · rw [if_pos h2]
    cases ttDhShared C s.rekey.ephSk (pubEphPk hdr) with
    | none => exact ⟨s.recv, s.rekey, rfl⟩
    | some dh => exact ⟨s.recv, _, rfl⟩
  · rw [if_neg h2]
    exact ⟨s.recv, s.rekey, rfl⟩

theorem ackMark_frame (s : TTSession) : ∃ rel, ackMark s = { s with rel := rel } := by
  simp only [ackMark]
  split_ifs
  · exact ⟨_, rfl⟩
  · exact ⟨s.rel, rfl⟩

theorem dataReject_frame (s : TTSession) (seq : ℕ) (key : Key) (taken : Option TTRatchet) :
    ∃ recv rel, dataReject C s seq key taken = { s with recv := recv, rel := rel } := by
  unfold dataReject
  cases taken <;> dsimp only <;> split_ifs
  · exact ⟨s.recv, _, rfl⟩
  · exact ⟨s.recv, s.rel, rfl⟩
  · exact ⟨_, _, rfl⟩
  · exact ⟨_, s.rel, rfl⟩

theorem feedData_frame (cap : ℕ) (hp : ttFramePeek input = some d) :
    ∃ recv rekey rel, (feedData C s ρ input d cap).session =
      { s with recv := recv, rekey := rekey, rel := rel } := by
  rcases feedData_cases (C := C) (s := s) (ρ := ρ) cap hp with
    ⟨e, h⟩ | ⟨-, key, taken, -, -, h⟩ | ⟨-, key, taken, pt, -, -, h⟩
  · exact ⟨s.recv, s.rekey, s.rel, by rw [h]⟩
  · obtain ⟨recv, rel, hr⟩ := dataReject_frame (C := C) s d.seq key taken
    exact ⟨recv, s.rekey, rel, by rw [h]; exact hr⟩
  · obtain ⟨rel, ha⟩ := ackMark_frame { s with recv := taken.getD (recvCommit C s.recv d.seq) }
    obtain ⟨recv, rekey, hh⟩ := applyHdr_frame (C := C)
      (ackMark { s with recv := taken.getD (recvCommit C s.recv d.seq) }) d.hdr ρ
    refine ⟨recv, rekey, rel, ?_⟩
    rw [h]
    change acceptedData C s ρ d taken = _
    rw [acceptedData, hh, ha]

theorem feedControl_handshaked (type : TTFrameType) :
    (feedControl C s type input d).handshaked = false := by
  rcases feedControl_cases C s input d type with
    ⟨r, h⟩ | ⟨-, -, -, d', payload, -, -, h⟩ <;> rw [h]

theorem feedData_handshaked (cap : ℕ) (hp : ttFramePeek input = some d) :
    (feedData C s ρ input d cap).handshaked = false := by
  rcases feedData_cases (C := C) (s := s) (ρ := ρ) cap hp with
    ⟨e, h⟩ | ⟨-, key, taken, -, -, h⟩ | ⟨-, key, taken, pt, -, -, h⟩ <;> rw [h]

theorem ttSessionFeed_handshaked {cap : ℕ}
    (h : (ttSessionFeed C s env ρ input cap).handshaked = true) :
    ∃ d, ttFramePeek input = some d ∧
      ((d.type = some .init ∧ s.active = true ∧ s.iAmInitiator = false ∧
          (ttSessionFeed C s env ρ input cap).session = s) ∨
        (d.type = some .init ∧ initReachesOpen C s env input d ∧ ∃ key f,
          initLegs C env ρ (hdrIk d.hdr) d.hdr = some f ∧
          (ttSessionFeed C s env ρ input cap).session =
            acceptedInit C (initTarget s) env (hdrIk d.hdr) ρ key d.hdr f) ∨
        (d.type = some .reply ∧ s.initPending = true ∧ s.active = false ∧
          d.hdr.length = ttHdrReply ∧ env.peerPk = some (hdrIk d.hdr) ∧
          ∃ f, dhLegs C env.selfSk (hdrEph1 d.hdr) s.ephA2Sk (hdrIk d.hdr) s.ephA3Sk
              (hdrEph2 d.hdr) = some f ∧
            (ttSessionFeed C s env ρ input cap).session =
              acceptedReply C s env (hdrIk d.hdr) ρ d.hdr f)) := by
  rcases ttSessionFeed_dispatch (C := C) s env ρ input cap with
    hf | ⟨d, hp, ⟨ht, hf⟩ | ⟨ht, hf⟩ | ⟨type, -, -, hf⟩ | ⟨-, last, hf⟩⟩
  · rw [hf] at h
    cases h
  · rw [hf] at h ⊢
    refine ⟨d, hp, ?_⟩
    rcases feedInit_handshaked hp ht h with hr | ⟨hr, key, f, hl, he⟩
    · exact Or.inl ⟨ht, hr⟩
    · exact Or.inr (Or.inl ⟨ht, hr, key, f, hl, by rw [he]⟩)
  · rw [hf] at h ⊢
    refine ⟨d, hp, ?_⟩
    rcases feedReply_cases C s env ρ hp with
      ⟨r, hr⟩ | ⟨h1, h2, h3, h4, f, hl, hr⟩
    · rw [hr] at h
      cases h
    · exact Or.inr (Or.inr ⟨ht, h1, h2, h3, h4, f, hl, by rw [hr]⟩)
  · rw [hf, feedControl_handshaked] at h
    cases h
  · rw [hf, feedData_handshaked _ hp] at h
    cases h

end TkTox
