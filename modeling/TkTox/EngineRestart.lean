import TkTox.EngineRecovery

/-!
What the two engines do with a DATA frame the session refuses.
-/

namespace TkTox

variable {C : Crypto} {env : ChatEnv} {t : Chat} {f : Bytes} {p s : TTSession} {d : TTFrameDesc} {e : TTE2EEStatus}

/-- `f` is a DATA frame `p` emitted, under the root that `s` holds. -/
structure Emitted (C : Crypto) (p s : TTSession) (f : Bytes) : Prop where
  live : p.active = true ∧ s.active = true
  root : p.root = s.root
  counter : p.send.seq < 2 ^ 32
  frame : ∃ text cap b ρ, (emitFrame C p text cap b ρ).2 = .ok f

theorem Emitted.peek (h : Emitted C p s f) : ∃ d, ttFramePeek f = some d ∧ d.type = some .data ∧
    d.seq = p.send.seq ∧
    (d.hdr.length = 0 ∨ d.hdr.length = ttHdrDataRekey ∨ d.hdr.length = ttHdrDataKempub) := by
  obtain ⟨text, cap, b, ρ, hf⟩ := h.frame
  obtain ⟨-, -, he⟩ | ⟨-, -, he⟩ | ⟨-, g, hg, he⟩ := emitFrame_cases C p text cap b ρ
  · rw [he] at hf
    cases hf
  · rw [he] at hf
    cases hf
  · rw [he] at hf
    cases hf
    obtain ⟨d, hd, ht, hq, hh, -⟩ := emitEncode_peek h.counter hg
    refine ⟨d, hd, ht, hq, ?_⟩
    rw [hh]
    obtain ⟨hn, -⟩ | ⟨hl, -⟩ | ⟨hl, -⟩ := emitHdr_fits C p b ρ
    · exact Or.inl (by rw [hn]; rfl)
    · exact Or.inr (Or.inr hl)
    · exact Or.inr (Or.inl hl)

theorem recvKey_error {r : TTRatchet} {seq : ℕ} (h : recvKey C r seq = .error e) :
    (e = .seqTooOld ∧ r.seq + ttSessionMaxSkip ≤ seq) ∨ (e = .replay ∧ seq < r.seq) := by
  unfold recvKey at h
  split_ifs at h with h1 h2 h3
  · cases h
    exact Or.inl ⟨rfl, by omega⟩
  · cases hs : skippedTake r seq with
    | none =>
      rw [hs] at h
      cases h
      exact Or.inr ⟨rfl, by omega⟩
    | some q =>
      rw [hs] at h
      cases h

theorem recvKey_far {r : TTRatchet} {seq : ℕ} {k : Key × Option TTRatchet} (h : recvKey C r seq = .ok k) :
    seq < r.seq + ttSessionMaxSkip := by
  have hpos : 0 < ttSessionMaxSkip := by decide
  unfold recvKey at h
  split_ifs at h
  · omega
  · omega
  · omega

theorem dataReject_active (s : TTSession) (seq : ℕ) (key : Key) (taken : Option TTRatchet) :
    (dataReject C s seq key taken).active = s.active := by
  unfold dataReject
  cases taken <;> dsimp only <;> split_ifs <;> rfl

theorem feedData_refused {cap : ℕ} (ha : s.active = true)
    (hl : d.hdr.length = 0 ∨ d.hdr.length = ttHdrDataRekey ∨ d.hdr.length = ttHdrDataKempub)
    (h : (feedData C s ρ f d cap).ret = .error e) :
    (feedData C s ρ f d cap).handshaked = false ∧ (feedData C s ρ f d cap).session.active = true ∧
      ((e = .seqTooOld ∧ s.recv.seq + ttSessionMaxSkip ≤ d.seq) ∨
        ((e = .decodeFail ∨ e = .replay) ∧ d.seq < s.recv.seq + ttSessionMaxSkip)) := by
  have hhdr : ¬ (d.hdr.length ≠ 0 ∧ d.hdr.length ≠ ttHdrDataRekey ∧ d.hdr.length ≠ ttHdrDataKempub) := by
    tauto
  unfold feedData at h ⊢
  rw [if_neg (by simp [ha]), if_neg hhdr] at h ⊢
  cases hk : recvKey C s.recv d.seq with
  | error e' =>
    rw [hk] at h
    cases h
    refine ⟨rfl, ha, ?_⟩
    obtain hold | ⟨hr, hq⟩ := recvKey_error hk
    · exact Or.inl hold
    · exact Or.inr ⟨Or.inr hr, by omega⟩
  | ok k =>
    obtain ⟨key, taken⟩ := k
    rw [hk] at h
    dsimp only at h ⊢
    cases hdec : ttFrameDecode C f key cap with
    | none =>
      rw [hdec] at h
      cases h
      refine ⟨rfl, ?_, Or.inr ⟨Or.inl rfl, recvKey_far hk⟩⟩
      dsimp only
      rw [dataReject_active, ha]
    | some r =>
      rw [hdec] at h
      cases h

theorem Emitted.feed (h : Emitted C p s f) {env : TTE2EEEnv} {cap : ℕ}
    (he : (ttSessionFeed C s env ρ f cap).ret = .error e) :
    (ttSessionFeed C s env ρ f cap).handshaked = false ∧
      (ttSessionFeed C s env ρ f cap).session.active = true ∧
      ((e = .seqTooOld ∧ s.recv.seq + ttSessionMaxSkip ≤ p.send.seq) ∨
        ((e = .decodeFail ∨ e = .replay) ∧ p.send.seq < s.recv.seq + ttSessionMaxSkip)) := by
  obtain ⟨d, hd, ht, hq, hl⟩ := h.peek
  have hfeed : ttSessionFeed C s env ρ f cap = feedData C { s with lastIn := f } ρ f d cap := by
    simp only [ttSessionFeed, hd, ht]
  rw [hfeed] at he ⊢
  have := feedData_refused (s := { s with lastIn := f }) h.live.2 hl he
  rwa [hq] at this

/-- A fresh handshake is on its way: the session is a pending initiator again. -/
def Restarted (s : TTSession) : Prop :=
  s.active = false ∧ s.initPending = true ∧ s.iAmInitiator = true

theorem ttSessionStart_restarted {env : TTE2EEEnv} (hp : env.peerPk ≠ none) (s : TTSession) (ρ : Draws)
    (now : ℤ) (cap : ℕ) : Restarted (ttSessionStart C s env ρ now cap).1 := by
  obtain ⟨pk, hpk⟩ := Option.ne_none_iff_exists'.mp hp
  unfold ttSessionStart
  rw [hpk]
  dsimp only
  split
  · exact ⟨rfl, rfl, rfl⟩
  · split <;> exact ⟨rfl, rfl, rfl⟩

theorem e2eeSendFrame_e2ee (t : Chat) (type : ToxMessageType) (f : Bytes) (piece : Option Piece) :
    (e2eeSendFrame env t type f piece).1.e2ee = t.e2ee := by
  obtain ⟨mid, -, he⟩ | ⟨-, he⟩ := e2eeSendFrame_cases env t type f piece
  · rw [he]
    rfl
  · rw [he]
    rfl

theorem e2eeStart_e2ee (hp : env.ident.peerPk ≠ none) (t : Chat) : (e2eeStart C env t).e2ee =
    (ttSessionStart C t.e2ee env.ident (env.draws t.clock 0) (env.now t.clock) ttFrameMax).1 := by
  unfold e2eeStart
  rw [if_neg hp]
  dsimp only
  split
  · exact e2eeSendFrame_e2ee ..
  · rfl

theorem e2eeRelPoll_inactive (h : t.e2ee.active = false) : (e2eeRelPoll C env t).e2ee = t.e2ee := by
  unfold e2eeRelPoll
  split_ifs
  · rfl
  · cases env.rounds with
    | zero => rfl
    | succ n =>
      have hn : ttSessionRelPoll C t.e2ee ttFrameMax (env.draws t.clock) = (t.e2ee, []) := if_pos h
      unfold relPollLoop
      rw [hn]
      rfl

theorem e2eeRx_refused (hp : env.ident.peerPk ≠ none) (h : Emitted C p t.e2ee f)
    (he : (ttSessionFeed C t.e2ee env.ident (env.draws t.clock 0) f ttFrameDataMax).ret = .error e) :
    Restarted (e2eeRx C env t f).1.e2ee ↔ p.send.seq < t.e2ee.recv.seq + ttSessionMaxSkip := by
  obtain ⟨hh, ha, hs⟩ := h.feed he
  generalize hr : ttSessionFeed C t.e2ee env.ident (env.draws t.clock 0) f ttFrameDataMax = r at hh ha he
  have hrx : (e2eeRx C env t f).1 = (rxError C env (t.setE2ee r.session).tick e).1 := by
    unfold e2eeRx
    rw [if_neg hp]
    simp only [hr, hh, he, Bool.false_eq_true, ↓reduceIte]
  have hact : (t.setE2ee r.session).tick.e2ee.active = true := ha
  rw [hrx]
  obtain ⟨rfl, hfar⟩ | ⟨hdes, hnear⟩ := hs
  · constructor
    · rintro ⟨hi, -⟩
      exfalso
      revert hi
      unfold rxError
      simp only [reduceCtorEq, ↓reduceIte, or_self]
      split_ifs
      · rw [hact]
        decide
      · change ¬ (t.setE2ee r.session).tick.e2ee.active = false
        rw [hact]
        decide
    · intro hnear
      omega
  · have hgo : (rxError C env (t.setE2ee r.session).tick e).1 =
        e2eeRelPoll C env (e2eeStart C env (t.setE2ee r.session).tick) := by
      unfold rxError
      obtain rfl | rfl := hdes <;> simp [ha]
    have hstart := ttSessionStart_restarted (C := C) hp (t.setE2ee r.session).tick.e2ee
      (env.draws (t.setE2ee r.session).tick.clock 0) (env.now (t.setE2ee r.session).tick.clock) ttFrameMax
    rw [← e2eeStart_e2ee hp] at hstart
    rw [hgo, e2eeRelPoll_inactive hstart.1]
    exact ⟨fun _ => hnear, fun _ => hstart⟩

theorem ttTunnelE2eeSend_tun (tenv : TunnelEnv) (io : Io) (fn : ℕ) (id : UInt8) (frame : Bytes)
    (what : Option TcpFrame) : (ttTunnelE2eeSend tenv io fn id frame what).1.tun = io.tun := by
  unfold ttTunnelE2eeSend
  split_ifs <;> rfl

theorem ttTunnelE2eeStart_tun {tenv : TunnelEnv} {io : Io} {fn : ℕ} {tun : ℕ → TTSession}
    (hp : (tenv.ident fn).peerPk ≠ none) (ht : io.tun = some tun) :
    (ttTunnelE2eeStart C tenv io fn).tun = some (Function.update tun fn
      (ttSessionStart C (tun fn) (tenv.ident fn) (tenv.draws io.clock) (tenv.now io.clock) ttFrameMax).1) := by
  unfold ttTunnelE2eeStart
  rw [ht]
  dsimp only
  rw [if_neg hp]
  split
  · rw [ttTunnelE2eeSend_tun]
    simp [ht]
  · simp [ht]

theorem ttTunnelE2eeRx_refused {tenv : TunnelEnv} {io : Io} {fn : ℕ} {tun : ℕ → TTSession}
    (hfn : fn < 256) (hp : (tenv.ident fn).peerPk ≠ none) (ht : io.tun = some tun)
    (h : Emitted C p (tun fn) f)
    (he : (ttSessionFeed C (tun fn) (tenv.ident fn) (tenv.draws io.clock) f ttFrameDataMax).ret = .error e) :
    (∃ tun', (ttTunnelE2eeRx C tenv io fn f false).1.tun = some tun' ∧ Restarted (tun' fn)) ↔
      p.send.seq < (tun fn).recv.seq + ttSessionMaxSkip := by
  obtain ⟨hh, ha, hs⟩ := h.feed he
  generalize hr : ttSessionFeed C (tun fn) (tenv.ident fn) (tenv.draws io.clock) f ttFrameDataMax = r
    at hh ha he
  have htun : (io.tick.setTun fn r.session).tun = some (Function.update tun fn r.session) := by
    simp [ht]
  have hrx : (ttTunnelE2eeRx C tenv io fn f false).1 =
      if (e = .decodeFail ∨ e = .replay) then ttTunnelE2eeStart C tenv (io.tick.setTun fn r.session) fn
      else io.tick.setTun fn r.session := by
    unfold ttTunnelE2eeRx
    rw [ht]
    dsimp only
    rw [if_neg (by simp [hp]; omega), hr]
    simp only [hh, he, ha, and_true, true_and]
    split_ifs <;> rfl
  rw [hrx]
  obtain ⟨rfl, hfar⟩ | ⟨hdes, hnear⟩ := hs
  · rw [if_neg (by decide), htun]
    constructor
    · rintro ⟨tun', htun', hi, -⟩
      cases htun'
      rw [Function.update_self, ha] at hi
      cases hi
    · intro hnear
      omega
  · rw [if_pos hdes, ttTunnelE2eeStart_tun hp htun]
    refine ⟨fun _ => hnear, fun _ => ⟨_, rfl, ?_⟩⟩
    rw [Function.update_self]
    exact ttSessionStart_restarted hp ..

/-- A refused frame of the peer restarts the session exactly when it is not beyond the window of
skipped messages: an overrun is refused with a status neither engine acts on. -/
theorem refused_restarts_iff (C : Crypto) :
    (∀ (env : ChatEnv) (t : Chat) (p : TTSession) (f : Bytes) (e : TTE2EEStatus),
      env.ident.peerPk ≠ none → Emitted C p t.e2ee f →
      (ttSessionFeed C t.e2ee env.ident (env.draws t.clock 0) f ttFrameDataMax).ret = .error e →
      (Restarted (e2eeRx C env t f).1.e2ee ↔ p.send.seq < t.e2ee.recv.seq + ttSessionMaxSkip)) ∧
    (∀ (tenv : TunnelEnv) (io : Io) (fn : ℕ) (tun : ℕ → TTSession) (p : TTSession) (f : Bytes)
      (e : TTE2EEStatus), fn < 256 → (tenv.ident fn).peerPk ≠ none → io.tun = some tun →
      Emitted C p (tun fn) f →
      (ttSessionFeed C (tun fn) (tenv.ident fn) (tenv.draws io.clock) f ttFrameDataMax).ret = .error e →
      ((∃ tun', (ttTunnelE2eeRx C tenv io fn f false).1.tun = some tun' ∧ Restarted (tun' fn)) ↔
        p.send.seq < (tun fn).recv.seq + ttSessionMaxSkip)) := by
  constructor
  · intro env t p f e hp h he
    exact e2eeRx_refused hp h he
  · intro tenv io fn tun p f e hfn hp ht h he
    exact ttTunnelE2eeRx_refused hfn hp ht h he

theorem ttSessionSend_short (hC : C.AeadCorrect) (ha : s.active = true) (hl : s.lossy = false)
    (text : Bytes) (ht : text.length ≤ 100) (ρ : Draws) : ∃ f,
    ttSessionSend C s text ttFrameMax ρ = (emitDone C s (fun _ => text) false ρ f, .ok f) ∧
      (emitFrame C s (fun _ => text) ttFrameMax false ρ).2 = .ok f := by
  have hs : ttSessionSend C s text ttFrameMax ρ =
      emitFrame C s (fun _ => text) ttFrameMax false ρ := by
    unfold ttSessionSend
    rw [if_neg (by simp only [ttFrameDataMax, ttFrameMax, ttFrameHeadMax, ttMac16]; omega),
      if_neg (by simp [ha])]
  have hroom : 53 + (emitHdr C s false ρ).hdr.length + text.length ≤ min 1372 ttFrameMax := by
    have hmin : min 1372 ttFrameMax = 1372 := by decide
    obtain ⟨hn, -⟩ | ⟨hh, -⟩ | ⟨hh, -⟩ := emitHdr_fits C s false ρ
    · rw [hn, hmin, List.length_nil]
      omega
    · rw [hh, hmin]
      simp only [ttHdrDataKempub]
      omega
    · rw [hh, hmin]
      simp only [ttHdrDataRekey]
      omega
  obtain ⟨f, hf⟩ := emitEncode_isSome hC (s := s) (fun _ => text) ttFrameMax false ρ hroom
  obtain ⟨hlossy, -⟩ | ⟨-, hn, -⟩ | ⟨-, g, hg, he⟩ := emitFrame_cases C s (fun _ => text) ttFrameMax false ρ
  · rw [hl] at hlossy
    cases hlossy
  · rw [hf] at hn
    cases hn
  · rw [hs, he]
    exact ⟨g, rfl, rfl⟩

theorem emitDone_keeps (s : TTSession) (text : TTSentBuf → Bytes) (b : Bool) (ρ : Draws) (f : Bytes) :
    (emitDone C s text b ρ f).lossy = s.lossy ∧ (emitDone C s text b ρ f).root = s.root := by
  unfold emitDone parkCarrier finishFold
  cases (emitHdr C s b ρ).fold <;> split_ifs <;> exact ⟨rfl, rfl⟩

theorem Emitted.overrun (h : Emitted C p s f) (hfar : s.recv.seq + ttSessionMaxSkip ≤ p.send.seq)
    (env : TTE2EEEnv) (ρ : Draws) (cap : ℕ) :
    (ttSessionFeed C s env ρ f cap).ret = .error .seqTooOld := by
  obtain ⟨d, hd, ht, hq, hl⟩ := h.peek
  have hhdr : ¬ (d.hdr.length ≠ 0 ∧ d.hdr.length ≠ ttHdrDataRekey ∧ d.hdr.length ≠ ttHdrDataKempub) := by
    tauto
  have hpos : 0 < ttSessionMaxSkip := by decide
  have hk : recvKey C s.recv d.seq = .error .seqTooOld := by
    unfold recvKey
    rw [hq, if_neg (by omega), if_pos (by omega), if_pos (by omega)]
  simp only [ttSessionFeed, hd, ht, feedData]
  rw [if_neg (by simp [h.live.2]), if_neg hhdr]
  simp only [hk]

namespace Instance

def sentTexts (s : TTSession) : ℕ → TTSession
  | 0 => s
  | n + 1 => (ttSessionSend crypto (sentTexts s n) [1] ttFrameMax (draws (UInt8.ofNat n))).1

theorem sentTexts_keeps {s : TTSession} (ha : s.active = true) (hl : s.lossy = false) (n : ℕ)
    (hn : s.send.seq + n < 2 ^ 32) : (sentTexts s n).active = true ∧ (sentTexts s n).lossy = false ∧
      (sentTexts s n).root = s.root ∧ (sentTexts s n).send.seq = s.send.seq + n := by
  induction n with
  | zero => exact ⟨ha, hl, rfl, rfl⟩
  | succ n ih =>
    obtain ⟨h1, h2, h3, h4⟩ := ih (by omega)
    obtain ⟨f, hf, -⟩ := ttSessionSend_short aeadCorrect h1 h2 [1] (by decide)
      (draws (UInt8.ofNat n))
    obtain ⟨k1, k2⟩ := emitDone_keeps (C := crypto) (sentTexts s n) (fun _ => [1]) false
      (draws (UInt8.ofNat n)) f
    have hstep : sentTexts s (n + 1) =
        emitDone crypto (sentTexts s n) (fun _ => [1]) false (draws (UInt8.ofNat n)) f := by
      rw [sentTexts, hf]
    rw [hstep, emitDone_active, emitDone_seq, k1, k2, h4, seqNext]
    exact ⟨h1, h2, h3, by omega⟩

def overrunFrame (s : TTSession) : Bytes :=
  okBytes (ttSessionSend crypto (sentTexts s 512) [1] ttFrameMax (draws 0)).2

theorem overrun_not_restarted {p s : TTSession} (ha : p.active = true) (hl : p.lossy = false)
    (hs : s.active = true) (hr : p.root = s.root) (hp1 : p.send.seq = 1) (hs1 : s.recv.seq = 1) :
    Emitted crypto (sentTexts p 512) s (overrunFrame p) ∧
    (ttSessionFeed crypto s bobEnv (draws 0) (overrunFrame p) ttFrameDataMax).ret = .error .seqTooOld ∧
    ¬ Restarted (e2eeRx crypto bobChatEnv (chatOf s) (overrunFrame p)).1.e2ee := by
  obtain ⟨h1, h2, h3, h4⟩ := sentTexts_keeps ha hl 512 (by rw [hp1]; decide)
  obtain ⟨f, hf, hemit⟩ := ttSessionSend_short aeadCorrect h1 h2 [1] (by decide) (draws 0)
  have hframe : overrunFrame p = f := by rw [overrunFrame, hf]; rfl
  rw [hp1] at h4
  have hem : Emitted crypto (sentTexts p 512) s (overrunFrame p) := by
    rw [hframe]
    exact ⟨⟨h1, hs⟩, h3.trans hr, by rw [h4]; decide, _, _, _, _, hemit⟩
  have hover := hem.overrun (by rw [hs1, h4]) bobEnv
  refine ⟨hem, hover _ _, ?_⟩
  rw [e2eeRx_refused (C := crypto) (t := chatOf s) bobChatEnv_peer hem (hover _ _), h4]
  change ¬ 513 < s.recv.seq + ttSessionMaxSkip
  rw [hs1]
  decide

theorem alice_bob_fresh : alice.active = true ∧ alice.lossy = false ∧ bob.active = true ∧
    alice.root = bob.root ∧ alice.send.seq = 1 ∧ bob.recv.seq = 1 := by decide +kernel

theorem alice_overrun_wedged : Emitted crypto (sentTexts alice 512) bob (overrunFrame alice) ∧
    (ttSessionFeed crypto bob bobEnv (draws 0) (overrunFrame alice) ttFrameDataMax).ret =
      .error .seqTooOld ∧
    ¬ Restarted (e2eeRx crypto bobChatEnv (chatOf bob) (overrunFrame alice)).1.e2ee := by
  obtain ⟨h1, h2, h3, h4, h5, h6⟩ := alice_bob_fresh
  exact overrun_not_restarted h1 h2 h3 h4 h5 h6

theorem refused_restarts_iff_overrun :
    Emitted crypto (sentTexts alice 512) (chatOf bob).e2ee (overrunFrame alice) ∧
    (Restarted (e2eeRx crypto bobChatEnv (chatOf bob) (overrunFrame alice)).1.e2ee ↔
      (sentTexts alice 512).send.seq < (chatOf bob).e2ee.recv.seq + ttSessionMaxSkip) := by
  obtain ⟨h1, h2, h3, h4, h5, h6⟩ := alice_bob_fresh
  obtain ⟨hem, -⟩ := overrun_not_restarted h1 h2 h3 h4 h5 h6
  have hseq := (sentTexts_keeps h1 h2 512 (by rw [h5]; decide)).2.2.2
  rw [← chatOf_e2ee bob] at hem h6
  have hover := hem.overrun (by rw [h6, hseq, h5]) bobChatEnv.ident
  exact ⟨hem, (refused_restarts_iff crypto).1 bobChatEnv (chatOf bob) (sentTexts alice 512)
    (overrunFrame alice) .seqTooOld bobChatEnv_peer hem (hover _ _)⟩

end Instance

end TkTox
