import TkTox.EngineOffers
import TkTox.HandshakeRoot
import TkTox.TunnelLink

/-!
What the two engines do with a repeated INIT, whose answer was lost.
-/

namespace TkTox

variable {C : Crypto} {t : Chat} {ea eb : TTE2EEEnv} {a b : TTSession} {ρ σ : Draws} {f : Bytes}

/-- The responder `b` took the INIT of `a`, which is still pending, and built its REPLY. -/
structure ReplyBuilt (C : Crypto) (ea eb : TTE2EEEnv) (a b : TTSession) : Prop where
  pending : a.initPending = true ∧ a.active = false
  keys : PendingKeys C a eb.selfPk
  responder : b.active = true ∧ b.iAmInitiator = false
  built : b.replyDue = false
  reply : IsReply C b ea eb b.replyCache

theorem ReplyBuilt.hasType (h : ReplyBuilt C ea eb a b) : HasType .reply b.replyCache := by
  obtain ⟨key, ρ, cap, -, he⟩ := h.reply
  exact ttFrameEncode_hasType he

theorem replyBuilt_of_init (hC : C.AeadCorrect) (hD : C.DhCommutes) (hF : Friends C ea eb)
    (ha : a.initPending = true ∧ a.active = false) (hk : PendingKeys C a eb.selfPk) (hf : IsInit C a ea f)
    (hb : b.active = false) (hi : b.iAmInitiator = false) (ρ σ : Draws) (cap : ℕ) :
    ReplyBuilt C ea eb a
      (ttSessionReply C (ttSessionFeed C b eb ρ f cap).session eb σ ttFrameMax).1 := by
  obtain ⟨d, hd, ht, hh, -⟩ := hf.peek
  have hl : d.hdr.length = ttHdrInit := by
    rw [hh, handshakeHdr_length, Blob.bytes_length]
  have hik : hdrIk d.hdr = ea.selfPk := by rw [hh, hdrIk_handshakeHdr]
  obtain ⟨key, l, -, hacc⟩ := acceptInit_isInit hC hD hF hk hf hd b ρ
  have hfeed : (ttSessionFeed C b eb ρ f cap).session = acceptedInit C b eb ea.selfPk ρ key d.hdr l := by
    simp only [ttSessionFeed, hd, ht, feedInit, hl, ne_eq, not_true_eq_false, ↓reduceIte,
      hF.peerPk_right, hik, hb, hi, Bool.false_and, Bool.false_eq_true, hacc]
  rw [hfeed]
  obtain ⟨g, hg, hr⟩ := ttSessionReply_spec hC hD hF (t := acceptedInit C b eb ea.selfPk ρ key d.hdr l)
    rfl σ ttFrameMax le_rfl
  rw [hg]
  exact ⟨ha, hk, ⟨rfl, rfl⟩, rfl, hr⟩

theorem feed_repeated (hC : C.AeadCorrect) (hD : C.DhCommutes) (hF : Friends C ea eb)
    (h : ReplyBuilt C ea eb a b) (hf : IsInit C a ea f) (ρ : Draws) (cap : ℕ) :
    ttSessionFeed C b eb ρ f cap = ⟨b, .ok [], true⟩ := by
  obtain ⟨d, hd, ht, hh, -⟩ := hf.peek
  have hl : d.hdr.length = ttHdrInit := by
    rw [hh, handshakeHdr_length, Blob.bytes_length]
  have hik : hdrIk d.hdr = ea.selfPk := by rw [hh, hdrIk_handshakeHdr]
  have hopen := hf.initOpens hC hD hF h.keys hd
  simp only [ttSessionFeed, hd, ht, feedInit, hl, ne_eq, not_true_eq_false, ↓reduceIte,
    hF.peerPk_right, hik, h.responder.1, h.responder.2, Bool.not_false, Bool.and_self, hopen]

theorem tick_isInit {now : ℤ} (ht : (ttSessionTick C a ea ρ now ttFrameMax).2 = .ok f) (hne : f ≠ []) :
    IsInit C a ea f := by
  obtain h | ⟨-, -, h | h⟩ := ttSessionTick_spec (C := C) a ea ρ now ttFrameMax
  · rw [h] at ht
    cases ht
    exact absurd rfl hne
  · rw [ht] at h
    exact absurd h hne
  · rwa [ht] at h

/-- The repair `tt_session_reply` is there for: the cached REPLY goes out again. -/
def RepliesAgain (t t' : Chat) : Prop :=
  (∃ e ∈ t.since t', e.offered = some t.e2ee.replyCache) ∧ t'.e2ee.root = t.e2ee.root ∧
    t'.e2ee.send = t.e2ee.send ∧ t'.e2ee.recv = t.e2ee.recv

def TunnelRepliesAgain (fn : ℕ) (b : TTSession) (io io' : Io) : Prop :=
  (∃ e ∈ io'.log.drop io.log.length,
    e.2 = .lossless fn (ttTunnelE2eeSigPacketId :: ttTunnelE2eeVersion :: b.replyCache) none) ∧
  ∀ tun ∈ io'.tun, (tun fn).root = b.root ∧ (tun fn).send = b.send ∧ (tun fn).recv = b.recv

theorem e2eeRx_repeated (hC : C.AeadCorrect) (hD : C.DhCommutes) (hF : Friends C ea eb)
    (h : ReplyBuilt C ea eb a b) (hf : IsInit C a ea f) (hid : env.ident = eb) (ht : t.e2ee = b) :
    ¬ RepliesAgain t (e2eeRx C env t f).1 := by
  have hrx : (e2eeRx C env t f).1 = rxHandshaked C env (t.setE2ee b).tick true (.ok []) := by
    unfold e2eeRx
    rw [if_neg (by rw [hid, hF.peerPk_right]; simp), ht, hid]
    simp only [feed_repeated hC hD hF h hf, h.responder.1, ↓reduceIte]
  have hoff : Offers (HasType .data) t (e2eeRx C env t f).1 := by
    rw [hrx]
    exact (Offers.of_log rfl).trans (rxHandshaked_offers h.built)
  obtain ⟨l, hl, hdata⟩ := hoff
  rintro ⟨⟨e, he, hcache⟩, -⟩
  rw [Chat.since, hl, List.drop_left] at he
  rw [ht] at hcache
  exact absurd ((hdata e he _ hcache).unique h.hasType) (by decide)

theorem ttTunnelE2eeRx_repeated (hC : C.AeadCorrect) (hD : C.DhCommutes) (hF : Friends C ea eb)
    (h : ReplyBuilt C ea eb a b) (hf : IsInit C a ea f) {tenv : TunnelEnv} {io : Io} {fn : ℕ}
    {tun : ℕ → TTSession} {lossy : Bool} (hid : tenv.ident fn = eb) (htun : io.tun = some tun)
    (hb : tun fn = b) : ¬ TunnelRepliesAgain fn b io (ttTunnelE2eeRx C tenv io fn f lossy).1 := by
  have hlog : (ttTunnelE2eeRx C tenv io fn f lossy).1.log = io.log := by
    have hdue : ¬ b.replyDue = true := by rw [h.built]; decide
    unfold ttTunnelE2eeRx
    rw [htun, hid]
    dsimp only
    rw [hb, feed_repeated hC hD hF h hf]
    dsimp only
    rw [if_neg hdue]
    split_ifs <;> rfl
  rintro ⟨⟨e, he, -⟩, -⟩
  rw [hlog, List.drop_length] at he
  cases he

/-- Neither engine ever answers a repeated INIT: both call `tt_session_reply` only while
`reply_due` is set, and building the REPLY cleared it. -/
theorem init_retransmit_unanswered (hC : C.AeadCorrect) (hD : C.DhCommutes) (hF : Friends C ea eb)
    (h : ReplyBuilt C ea eb a b) {now : ℤ} (htick : (ttSessionTick C a ea ρ now ttFrameMax).2 = .ok f)
    (hne : f ≠ []) :
    (∀ (env : ChatEnv) (t : Chat), env.ident = eb → t.e2ee = b →
      ¬ RepliesAgain t (e2eeRx C env t f).1) ∧
    (∀ (tenv : TunnelEnv) (io : Io) (fn : ℕ) (tun : ℕ → TTSession) (lossy : Bool),
      tenv.ident fn = eb → io.tun = some tun → tun fn = b →
        ¬ TunnelRepliesAgain fn b io (ttTunnelE2eeRx C tenv io fn f lossy).1) := by
  have hf := tick_isInit htick hne
  constructor
  · intro env t hid ht
    exact e2eeRx_repeated hC hD hF h hf hid ht
  · intro tenv io fn tun lossy hid htun hb
    exact ttTunnelE2eeRx_repeated hC hD hF h hf hid htun hb

namespace Instance

def bobChatEnv : ChatEnv := { chatEnv with ident := bobEnv }

theorem bobChatEnv_ident : bobChatEnv.ident = bobEnv := rfl

theorem bobChatEnv_peer : bobChatEnv.ident.peerPk ≠ none := by
  rw [bobChatEnv_ident, bobEnv]
  simp

def chatOf (s : TTSession) : Chat where
  e2ee := s
  required := true
  fallback := false
  warned := false
  handshakeAt := 0
  oq := .empty
  oqFlushing := false
  clock := 0
  log := []

def bobTunnelEnv : TunnelEnv where
  ident _ := bobEnv
  draws _ := draws 1
  now _ := 0
  custom _ := .ok
  recv _ := .again
  sender _ := 0
  taken _ := 0
  socket _ := none
  resolve _ _ _ := none
  connect _ := .done
  soError _ := none
  accept _ := none
  friendByPk _ := none

def ioOf (s : TTSession) : Io := ⟨some fun _ => s, 0, 0, []⟩

theorem chatOf_e2ee (s : TTSession) : (chatOf s).e2ee = s := rfl

theorem ioOf_tun (s : TTSession) : (ioOf s).tun = some fun _ => s := rfl

theorem alice_pending : (aliceStarted.1.initPending = true ∧ aliceStarted.1.active = false) ∧
    PendingKeys crypto aliceStarted.1 bobEnv.selfPk ∧
    IsInit crypto aliceStarted.1 aliceEnv initFrame := by
  obtain ⟨s, f, hst, hk, hi, ha, -, hp, -⟩ := ttSessionStart_spec aeadCorrect dhCommutes
    (friends false) .zero (draws 1) 0 ttFrameMax le_rfl
  have hs : aliceStarted = (s, .ok f) := hst
  have hf : initFrame = f := by rw [initFrame, hs]; rfl
  rw [hf, hs]
  exact ⟨⟨hp, ha⟩, hk, hi⟩

theorem bob_replyBuilt : ReplyBuilt crypto aliceEnv bobEnv aliceStarted.1 bob :=
  replyBuilt_of_init aeadCorrect dhCommutes (friends false) alice_pending.1 alice_pending.2.1
    alice_pending.2.2 (b := .zero) rfl rfl (draws 2) (draws 3) ttFrameDataMax

def initAgain : Bytes :=
  okBytes (ttSessionTick crypto aliceStarted.1 aliceEnv (draws 5) (aliceStarted.1.initAt + 5)
    ttFrameMax).2

theorem initAgain_sent : (ttSessionTick crypto aliceStarted.1 aliceEnv (draws 5)
    (aliceStarted.1.initAt + 5) ttFrameMax).2 = .ok initAgain ∧ initAgain ≠ [] := by
  obtain ⟨f, hf⟩ := buildInit_isSome aeadCorrect { aliceStarted.1 with
    initAt := aliceStarted.1.initAt + 5 } aliceEnv (draws 5) (le_refl ttFrameMax)
  have hdue : ¬ (aliceStarted.1.initPending = false ∨
      aliceStarted.1.initAt + 5 - aliceStarted.1.initAt < 5) := by
    rw [alice_pending.1.1]
    simp
  have ht : (ttSessionTick crypto aliceStarted.1 aliceEnv (draws 5) (aliceStarted.1.initAt + 5)
      ttFrameMax).2 = .ok f := by
    unfold ttSessionTick
    rw [if_neg hdue]
    simp only [hf, Option.getD_some]
  have hg : initAgain = f := by rw [initAgain, ht]; rfl
  rw [hg]
  refine ⟨ht, fun hn => ?_⟩
  have hpeek := IsInit.peek ⟨_, _, hf⟩
  rw [hn] at hpeek
  obtain ⟨d, hd, -⟩ := hpeek
  have hnone : ttFramePeek [] = none := by decide
  rw [hnone] at hd
  cases hd

theorem lostReply_not_repaired : ReplyBuilt crypto aliceEnv bobEnv aliceStarted.1 bob ∧
    (ttSessionTick crypto aliceStarted.1 aliceEnv (draws 5) (aliceStarted.1.initAt + 5)
      ttFrameMax).2 = .ok initAgain ∧
    ¬ RepliesAgain (chatOf bob) (e2eeRx crypto bobChatEnv (chatOf bob) initAgain).1 ∧
    ¬ TunnelRepliesAgain 0 bob (ioOf bob) (ttTunnelE2eeRx crypto bobTunnelEnv (ioOf bob) 0 initAgain false).1 := by
  have hf := tick_isInit initAgain_sent.1 initAgain_sent.2
  refine ⟨bob_replyBuilt, initAgain_sent.1, ?_, ?_⟩
  · exact e2eeRx_repeated aeadCorrect dhCommutes (friends false) bob_replyBuilt hf bobChatEnv_ident
      (chatOf_e2ee bob)
  · exact ttTunnelE2eeRx_repeated aeadCorrect dhCommutes (friends false) bob_replyBuilt hf rfl
      (ioOf_tun bob) rfl

theorem init_retransmit_unanswered_bob :
    ReplyBuilt crypto aliceEnv bobEnv aliceStarted.1 bob ∧ initAgain ≠ [] ∧
    ¬ RepliesAgain (chatOf bob) (e2eeRx crypto bobChatEnv (chatOf bob) initAgain).1 :=
  ⟨bob_replyBuilt, initAgain_sent.2, (init_retransmit_unanswered aeadCorrect dhCommutes (friends false)
    bob_replyBuilt initAgain_sent.1 initAgain_sent.2).1 bobChatEnv (chatOf bob)
      bobChatEnv_ident (chatOf_e2ee bob)⟩

end Instance

end TkTox
