import TkTox.ChainLedger
import TkTox.FeedCases
import TkTox.SessionRun

/-!
What every entry point of `session.c` does to the sending chain: the keys `send_key` draws, the
text each of them seals, and the chains a handshake or a fold starts.
-/

namespace TkTox

open ChainLedger

abbrev SendEvent := Event Key (Key × Nonce) Bytes

section

variable (C : Crypto)

def emitEvents (s : TTSession) (text : TTSentBuf → Bytes) (cap : ℕ) (carrierOnly : Bool)
    (ρ : Draws) : List SendEvent :=
  if s.lossy ∧ s.rekey.carrier ≠ [] then []
  else match emitEncode C s text cap carrierOnly ρ with
  | none => [.draw (chainMaterial C s.send.chain) none]
  | some _ => .draw (chainMaterial C s.send.chain) (some (text s.rel.sent)) ::
      ((emitHdr C s carrierOnly ρ).fold.map fun f => .seed (ratchetFold C s.send f.1 f.2).chain).toList

def relResendEvents (cap : ℕ) (ρ : ℕ → Draws) : ℕ → ℕ → TTSession → List SendEvent
  | 0, _, _ => []
  | n + 1, r, s =>
    let i := sentIdx (s.rel.sent.head + r)
    let msg := s.rel.sent.m i
    if msg.gen ≠ s.rel.resendRepGen ∨ msg.seq < s.rel.resendRepFrom then
      relResendEvents cap ρ n (r + 1) s
    else
      let text := TTSentBuf.readSlot i msg.data.length
      emitEvents C s text cap false (ρ r) ++
        match emitFrame C s text cap false (ρ r) with
        | (_, .ok (_ :: _)) => []
        | (s, _) => relResendEvents cap ρ n (r + 1) s

def sessionEvents (s : TTSession) : SessionOp → List SendEvent
  | .feed env ρ input ptCap =>
    if establishesOn C s env ρ input ptCap then
      [.seed (ttSessionFeed C s env ρ input ptCap).session.send.chain]
    else []
  | .send text cap ρ | .sendLossy text cap ρ =>
    if text.length > ttFrameDataMax ∨ s.active = false then []
    else emitEvents C s (fun _ => text) cap false ρ
  | .flush cap ρ =>
    match s.active, s.pending with
    | true, text :: _ => emitEvents C s (fun _ => text) cap false ρ
    | _, _ => []
  | .relPoll cap ρ =>
    if s.active = false ∨ s.rel.resendReqPending ∨ s.rel.resendRepPending = false then []
    else relResendEvents C cap ρ s.rel.sent.count 0 s
  | .carrier cap ρ =>
    if s.active = false ∨ s.rekey.carrier ≠ [] ∨ ttSessionRekeyPending s = false then []
    else emitEvents C s (fun _ => []) cap true ρ
  | .start _ _ _ _ | .reply _ _ _ | .tick _ _ _ _ | .carrierDone | .rekeyDue => []

end

structure Traced (C : Crypto) (s s' : TTSession) (es : List SendEvent) : Prop where
  active : s'.active = s.active
  follows : Follows (nextChain C) (chainMaterial C) s.send.chain es
  chain : s'.send.chain = es.foldl (chainAfter (nextChain C)) s.send.chain

variable {C : Crypto} {s t u : TTSession} {es es' : List SendEvent}

theorem Traced.of_send (ha : t.active = s.active) (hs : t.send.chain = s.send.chain) :
    Traced C s t [] := ⟨ha, trivial, hs⟩

theorem Traced.trans (h : Traced C s t es) (h' : Traced C t u es') : Traced C s u (es ++ es') where
  active := h'.active.trans h.active
  follows := h.follows.append (h.chain ▸ h'.follows)
  chain := by rw [h'.chain, h.chain, List.foldl_append]

theorem Traced.congr {t' : TTSession} (h : Traced C s t es) (ha : t'.active = t.active)
    (hs : t'.send.chain = t.send.chain) : Traced C s t' es :=
  ⟨ha.trans h.active, h.follows, hs.trans h.chain⟩

theorem parkCarrier_send (hdr frame : Bytes) : (parkCarrier s hdr frame).active = s.active ∧
    (parkCarrier s hdr frame).send = s.send := by
  unfold parkCarrier
  split_ifs <;> exact ⟨rfl, rfl⟩

theorem emitDone_send (text : TTSentBuf → Bytes) (b : Bool) (ρ : Draws) (f : Bytes) :
    (emitDone C s text b ρ f).active = s.active ∧
      (emitDone C s text b ρ f).send.chain =
        ((emitHdr C s b ρ).fold.map fun f => (ratchetFold C s.send f.1 f.2).chain).getD
          (nextChain C s.send.chain) := by
  obtain ⟨ha, hs⟩ := parkCarrier_send (s := finishFold C
    (if s.lossy then emitDrawn C s b ρ
      else { emitDrawn C s b ρ with rel := { s.rel with
        sent := relSentAdd s.rel.sent (relGen C s.root) s.send.seq text } })
    (emitHdr C s b ρ).fold) (emitHdr C s b ρ).hdr f
  rw [emitDone, ha, hs]
  cases (emitHdr C s b ρ).fold <;> cases s.lossy <;> exact ⟨rfl, rfl⟩

theorem emitFrame_traced (C : Crypto) (s : TTSession) (text : TTSentBuf → Bytes) (cap : ℕ) (b : Bool)
    (ρ : Draws) : Traced C s (emitFrame C s text cap b ρ).1 (emitEvents C s text cap b ρ) := by
  unfold emitEvents
  obtain ⟨hl, hc, he⟩ | ⟨hc, hn, he⟩ | ⟨hc, f, hf, he⟩ := emitFrame_cases C s text cap b ρ
  · rw [he, if_pos ⟨hl, hc⟩]
    exact .of_send rfl rfl
  · rw [he, if_neg fun h => h.2 (hc h.1), hn]
    exact ⟨rfl, ⟨rfl, trivial⟩, rfl⟩
  · rw [he, if_neg fun h => h.2 (hc h.1), hf]
    obtain ⟨ha, hs⟩ := emitDone_send (C := C) (s := s) text b ρ f
    refine ⟨ha, ?_, ?_⟩
    · cases (emitHdr C s b ρ).fold <;> exact ⟨rfl, trivial⟩
    · rw [hs]
      cases (emitHdr C s b ρ).fold <;> rfl

theorem emitFrame_sealed {text : TTSentBuf → Bytes} {cap : ℕ} {b : Bool} {ρ : Draws} {f : Bytes}
    (h : (emitFrame C s text cap b ρ).2 = .ok f) :
    (∃ rest, emitEvents C s text cap b ρ =
      .draw (chainMaterial C s.send.chain) (some (text s.rel.sent)) :: rest) ∧
    ttFrameEncode C cap .data s.send.seq (dataFlags C ||| (emitHdr C s b ρ).flags)
      (chainMaterial C s.send.chain).1 (chainMaterial C s.send.chain).2 (emitHdr C s b ρ).hdr
      (text s.rel.sent) = some f := by
  obtain ⟨-, -, he⟩ | ⟨-, -, he⟩ | ⟨hc, g, hg, he⟩ := emitFrame_cases C s text cap b ρ
  · rw [he] at h
    cases h
  · rw [he] at h
    cases h
  · rw [he] at h
    cases h
    have hnot : ¬ (s.lossy = true ∧ s.rekey.carrier ≠ []) := fun h => h.2 (hc h.1)
    simp only [emitEvents, if_neg hnot, hg]
    exact ⟨⟨_, rfl⟩, hg⟩

theorem relResend_traced (cap : ℕ) (ρ : ℕ → Draws) (n r : ℕ) (s : TTSession) :
    Traced C s (relResend C cap ρ n r s).1 (relResendEvents C cap ρ n r s) := by
  induction n generalizing r s with
  | zero => exact .of_send rfl rfl
  | succ n ih =>
    unfold relResend relResendEvents
    dsimp only
    split_ifs with hskip
    · exact ih (r + 1) s
    · have he := emitFrame_traced C s (TTSentBuf.readSlot (sentIdx (s.rel.sent.head + r))
        (s.rel.sent.m (sentIdx (s.rel.sent.head + r))).data.length) cap false (ρ r)
      cases heq : emitFrame C s (TTSentBuf.readSlot (sentIdx (s.rel.sent.head + r))
          (s.rel.sent.m (sentIdx (s.rel.sent.head + r))).data.length) cap false (ρ r) with
      | mk t ret =>
        rw [heq] at he
        cases ret with
        | error e => exact he.trans (ih (r + 1) t)
        | ok frame =>
          cases frame with
          | nil => exact he.trans (ih (r + 1) t)
          | cons b f =>
            rw [List.append_nil]
            exact he.congr rfl rfl

variable {env : TTE2EEEnv} {ρ : Draws} {input : Bytes} {cap : ℕ}

theorem initTarget_send (s : TTSession) : (initTarget s).active = false ∨ initTarget s = s := by
  unfold initTarget
  split_ifs
  · exact Or.inl rfl
  · exact Or.inr rfl

theorem establishesOn_eq_true {d : TTFrameDesc} (hp : ttFramePeek input = some d)
    (hr : (d.type == some .init && (s.active && !s.iAmInitiator && initOpens C env input d)) = false)
    (hh : (ttSessionFeed C s env ρ input cap).handshaked = true) :
    establishesOn C s env ρ input cap = true := by
  simp only [establishesOn, initRetransmit, hp, hh, hr]
  rfl

theorem feedInit_refused {d : TTFrameDesc} (hp : ttFramePeek input = some d)
    (hr : initReachesOpen C s env input d)
    (hh : (feedInit C s env ρ input d).handshaked = false) :
    (feedInit C s env ρ input d).session.active = false ∨
      Traced C s (feedInit C s env ρ input d).session [] := by
  obtain he | he := feedInit_fresh (ρ := ρ) hr
  · rw [he]
    exact Or.inr (.of_send rfl rfl)
  rw [he] at hh ⊢
  obtain ⟨-, e, ha⟩ | ⟨-, -, key, ha⟩ | ⟨-, key, f, -, ha⟩ :=
    acceptInit_cases C (initTarget s) env ρ (hdrIk d.hdr) hp
  · rw [ha]
    obtain ht | ht := initTarget_send s
    · exact Or.inl ht
    · exact Or.inr (.of_send (congrArg _ ht) (by rw [ht]))
  · rw [ha]
    obtain ht | ht := initTarget_send s
    · exact Or.inl ht
    · exact Or.inr (.of_send (show (initTarget s).active = s.active by rw [ht])
        (show (initTarget s).send.chain = s.send.chain by rw [ht]))
  · rw [ha] at hh
    cases hh

theorem feed_refused (hn : establishesOn C s env ρ input cap = false) :
    (ttSessionFeed C s env ρ input cap).session.active = false ∨
      Traced C s (ttSessionFeed C s env ρ input cap).session [] := by
  obtain hf | ⟨d, hp, ⟨ht, hf⟩ | ⟨ht, hf⟩ | ⟨type, -, -, hf⟩ | ⟨-, last, hf⟩⟩ :=
    ttSessionFeed_dispatch (C := C) s env ρ input cap
  · rw [hf]
    exact Or.inr (.of_send rfl rfl)
  · rw [hf]
    by_cases hr : initReachesOpen C s env input d
    · apply feedInit_refused hp hr
      by_contra hh
      rw [Bool.not_eq_false, ← hf] at hh
      rw [establishesOn_eq_true hp (by rw [hr.2.2.2, Bool.and_false]) hh] at hn
      cases hn
    · rw [(feedInit_early (ρ := ρ) ht hr).1]
      exact Or.inr (.of_send rfl rfl)
  · rw [hf]
    obtain ⟨ret, hr⟩ | ⟨-, -, -, -, f, -, hr⟩ := feedReply_cases C s env ρ hp
    · rw [hr]
      exact Or.inr (.of_send rfl rfl)
    · have hh : (ttSessionFeed C s env ρ input cap).handshaked = true := by rw [hf, hr]
      rw [establishesOn_eq_true hp (by rw [ht]; rfl) hh] at hn
      cases hn
  · rw [hf]
    obtain ⟨ret, hr⟩ | ⟨-, -, -, d', payload, -, -, hr⟩ := feedControl_cases C s input d type
    · rw [hr]
      exact Or.inr (.of_send rfl rfl)
    · rw [hr]
      exact Or.inr (.of_send rfl rfl)
  · rw [hf]
    obtain ⟨recv, rekey, rel, hr⟩ :=
      feedData_frame (C := C) (s := { s with lastIn := last }) (ρ := ρ) cap hp
    rw [hr]
    exact Or.inr (.of_send rfl rfl)

theorem feed_established (he : establishesOn C s env ρ input cap = true) :
    (ttSessionFeed C s env ρ input cap).session.active = true := by
  rw [establishesOn, Bool.and_eq_true] at he
  obtain ⟨d, -, ⟨-, ha, -, hs⟩ | ⟨-, -, key, f, -, hs⟩ | ⟨-, -, -, -, -, f, -, hs⟩⟩ :=
    ttSessionFeed_handshaked he.1
  · rw [hs]
    exact ha
  · rw [hs]
    rfl
  · rw [hs]
    rfl

theorem sessionStep_events (C : Crypto) (s : TTSession) (op : SessionOp) :
    (Traced C s (sessionStep C s op) (sessionEvents C s op) ∧
      (s.active = false → sessionEvents C s op = [])) ∨
    ((sessionStep C s op).active = false ∧ sessionEvents C s op = []) ∨
    ((sessionStep C s op).active = true ∧
      sessionEvents C s op = [.seed (sessionStep C s op).send.chain]) := by
  cases op with
  | start env ρ now cap =>
    obtain hs | ha := ttSessionStart_inactive C s env ρ now cap
    · exact Or.inl ⟨.of_send (congrArg _ hs) (by rw [sessionStep, hs]), fun _ => rfl⟩
    · exact Or.inr (Or.inl ⟨ha, rfl⟩)
  | feed env ρ input cap =>
    rw [sessionEvents]
    cases he : establishesOn C s env ρ input cap with
    | true => exact Or.inr (Or.inr ⟨feed_established he, rfl⟩)
    | false =>
      obtain ha | ht := feed_refused he
      · exact Or.inr (Or.inl ⟨ha, rfl⟩)
      · exact Or.inl ⟨ht, fun _ => rfl⟩
  | reply env ρ cap =>
    refine Or.inl ⟨?_, fun _ => rfl⟩
    simp only [sessionStep, sessionEvents, ttSessionReply]
    split
    · exact .of_send rfl rfl
    split_ifs
    · exact .of_send rfl rfl
    · exact .of_send rfl rfl
    split
    · exact .of_send rfl rfl
    split <;> exact .of_send rfl rfl
  | tick env ρ now cap =>
    refine Or.inl ⟨?_, fun _ => rfl⟩
    simp only [sessionStep, sessionEvents, ttSessionTick]
    split_ifs <;> exact .of_send rfl rfl
  | send text cap ρ =>
    left
    simp only [sessionStep, sessionEvents, ttSessionSend]
    by_cases hl : text.length > ttFrameDataMax
    · rw [if_pos hl, if_pos (Or.inl hl)]
      exact ⟨.of_send rfl rfl, fun _ => rfl⟩
    by_cases ha : s.active = false
    · rw [if_neg hl, if_pos ha, if_pos (Or.inr ha)]
      split_ifs <;> exact ⟨.of_send rfl rfl, fun _ => rfl⟩
    rw [if_neg hl, if_neg ha, if_neg (not_or.mpr ⟨hl, ha⟩)]
    exact ⟨emitFrame_traced _ _ _ _ _ _, fun h => absurd h ha⟩
  | sendLossy text cap ρ =>
    left
    simp only [sessionStep, sessionEvents, ttSessionSendLossy]
    by_cases hl : text.length > ttFrameDataMax
    · rw [if_pos hl, if_pos (Or.inl hl)]
      exact ⟨.of_send rfl rfl, fun _ => rfl⟩
    by_cases ha : s.active = false
    · rw [if_neg hl, if_pos ha, if_pos (Or.inr ha)]
      exact ⟨.of_send rfl rfl, fun _ => rfl⟩
    rw [if_neg hl, if_neg ha, if_neg (not_or.mpr ⟨hl, ha⟩)]
    exact ⟨emitFrame_traced _ _ _ _ _ _, fun h => absurd h ha⟩
  | flush cap ρ =>
    left
    simp only [sessionStep, sessionEvents, ttSessionFlush]
    cases ha : s.active with
    | false => exact ⟨.of_send rfl rfl, fun _ => rfl⟩
    | true =>
      cases hp : s.pending with
      | nil => exact ⟨.of_send rfl rfl, fun _ => rfl⟩
      | cons text rest =>
        refine ⟨?_, fun h => by cases h⟩
        have he := emitFrame_traced C s (fun _ => text) cap false ρ
        dsimp only
        split
        · rename_i heq
          rw [heq] at he
          exact he.congr rfl rfl
        · rename_i heq
          rw [heq] at he
          exact he
  | relPoll cap ρ =>
    left
    simp only [sessionStep, sessionEvents, ttSessionRelPoll]
    by_cases ha : s.active = false
    · rw [if_pos ha, if_pos (Or.inl ha)]
      exact ⟨.of_send rfl rfl, fun _ => rfl⟩
    rw [if_neg ha]
    by_cases hq : s.rel.resendReqPending = true
    · rw [if_pos hq, if_pos (Or.inr (Or.inl hq))]
      exact ⟨.of_send rfl rfl, fun _ => rfl⟩
    rw [if_neg hq]
    by_cases hr : s.rel.resendRepPending = true
    · have hn : ¬ (s.active = false ∨ s.rel.resendReqPending = true ∨
          s.rel.resendRepPending = false) := by
        simp only [hr, Bool.true_eq_false, or_false, not_or]
        exact ⟨ha, hq⟩
      rw [if_pos hr, if_neg hn]
      exact ⟨relResend_traced cap ρ _ _ s, fun h => absurd h ha⟩
    · rw [if_neg hr, if_pos (Or.inr (Or.inr (by simpa using hr)))]
      split_ifs <;> exact ⟨.of_send rfl rfl, fun _ => rfl⟩
  | carrier cap ρ =>
    left
    simp only [sessionStep, sessionEvents, ttSessionCarrier]
    by_cases ha : s.active = false
    · rw [if_pos ha, if_pos (Or.inl ha)]
      exact ⟨.of_send rfl rfl, fun _ => rfl⟩
    rw [if_neg ha]
    by_cases hc : s.rekey.carrier ≠ []
    · rw [if_pos hc, if_pos (Or.inr (Or.inl hc))]
      split_ifs <;> exact ⟨.of_send rfl rfl, fun _ => rfl⟩
    rw [if_neg hc]
    by_cases hk : ttSessionRekeyPending s = false
    · rw [if_pos hk, if_pos (Or.inr (Or.inr hk))]
      exact ⟨.of_send rfl rfl, fun _ => rfl⟩
    rw [if_neg hk, if_neg (not_or.mpr ⟨ha, not_or.mpr ⟨hc, hk⟩⟩)]
    exact ⟨emitFrame_traced _ _ _ _ _ _, fun h => absurd h ha⟩
  | carrierDone => exact Or.inl ⟨.of_send rfl rfl, fun _ => rfl⟩
  | rekeyDue =>
    refine Or.inl ⟨?_, fun _ => rfl⟩
    simp only [sessionStep, sessionEvents, ttSessionRekeyDue]
    split_ifs <;> exact .of_send rfl rfl

end TkTox
