import TkTox.FeedCases
import TkTox.SessionRun

/-!
The handshake between two friends, frame by frame: what an INIT and a REPLY say, that they
open at the other side, and that both sides derive one root from them.
-/

namespace TkTox

variable {C : Crypto} {s t : TTSession} {ea eb : TTE2EEEnv} {ρ : Draws} {f : Bytes}

/-- Two identities that have each other in the friend list. -/
structure Friends (C : Crypto) (ea eb : TTE2EEEnv) : Prop where
  selfPk_left : ea.selfPk = C.scalarmultBase ea.selfSk
  selfPk_right : eb.selfPk = C.scalarmultBase eb.selfSk
  peerPk_left : ea.peerPk = some eb.selfPk
  peerPk_right : eb.peerPk = some ea.selfPk

theorem Friends.symm (h : Friends C ea eb) : Friends C eb ea :=
  ⟨h.selfPk_right, h.selfPk_left, h.peerPk_right, h.peerPk_left⟩

def handshakeHdr (ik e1 e2 : Key) (kem : Bytes) : Bytes := ik.bytes ++ e1.bytes ++ e2.bytes ++ kem

section Header

variable {ik e1 e2 : Key}

theorem handshakeHdr_drop (kem : Bytes) :
    (handshakeHdr ik e1 e2 kem).drop 32 = e1.bytes ++ (e2.bytes ++ kem) ∧
      (handshakeHdr ik e1 e2 kem).drop 64 = e2.bytes ++ kem ∧
      (handshakeHdr ik e1 e2 kem).drop 96 = kem := by
  have h32 : (handshakeHdr ik e1 e2 kem).drop 32 = e1.bytes ++ (e2.bytes ++ kem) := by
    rw [handshakeHdr, List.append_assoc, List.append_assoc]
    exact List.drop_left' ik.bytes_length
  have h64 : (handshakeHdr ik e1 e2 kem).drop 64 = e2.bytes ++ kem := by
    rw [show 64 = 32 + 32 from rfl, ← List.drop_drop, h32]
    exact List.drop_left' e1.bytes_length
  refine ⟨h32, h64, ?_⟩
  rw [show 96 = 64 + 32 from rfl, ← List.drop_drop, h64]
  exact List.drop_left' e2.bytes_length

@[simp] theorem hdrIk_handshakeHdr (kem : Bytes) : hdrIk (handshakeHdr ik e1 e2 kem) = ik := by
  rw [hdrIk, handshakeHdr, List.append_assoc, List.append_assoc, Blob.read_append]

@[simp] theorem hdrEph1_handshakeHdr (kem : Bytes) : hdrEph1 (handshakeHdr ik e1 e2 kem) = e1 := by
  rw [hdrEph1, (handshakeHdr_drop kem).1, Blob.read_append]

@[simp] theorem hdrEph2_handshakeHdr (kem : Bytes) : hdrEph2 (handshakeHdr ik e1 e2 kem) = e2 := by
  rw [hdrEph2, (handshakeHdr_drop kem).2.1, Blob.read_append]

@[simp] theorem hdrKemPk_handshakeHdr (kem : KemPk) :
    hdrKemPk (handshakeHdr ik e1 e2 kem.bytes) = kem := by
  rw [hdrKemPk, (handshakeHdr_drop _).2.2, Blob.read_bytes]

@[simp] theorem hdrKemCt_handshakeHdr (kem : KemCt) :
    hdrKemCt (handshakeHdr ik e1 e2 kem.bytes) = kem := by
  rw [hdrKemCt, (handshakeHdr_drop _).2.2, Blob.read_bytes]

theorem handshakeHdr_take (kem : Bytes) : (handshakeHdr ik e1 e2 kem).take 32 = ik.bytes := by
  rw [handshakeHdr, List.append_assoc, List.append_assoc]
  exact List.take_left' ik.bytes_length

theorem handshakeHdr_length (kem : Bytes) :
    (handshakeHdr ik e1 e2 kem).length = 96 + kem.length := by
  simp only [handshakeHdr, List.length_append, Blob.bytes_length]

end Header

theorem sealKeyDerive_agree (hD : C.DhCommutes) (a b ad : Key) :
    ∃ key, sealKeyDerive C a (C.scalarmultBase b) ad = some key ∧
      sealKeyDerive C b (C.scalarmultBase a) ad = some key := by
  obtain ⟨z, h1, h2⟩ := hD a b
  simp only [sealKeyDerive, ttDhShared, h1, h2, Option.map_some]
  exact ⟨_, rfl, rfl⟩

theorem dhLegs_agree (hD : C.DhCommutes) (skA a2 a3 skB b1 b3 : Key) :
    ∃ l, dhLegs C b1 (C.scalarmultBase skA) skB (C.scalarmultBase a2) b3 (C.scalarmultBase a3) =
        some l ∧
      dhLegs C skA (C.scalarmultBase b1) a2 (C.scalarmultBase skB) a3 (C.scalarmultBase b3) =
        some l := by
  obtain ⟨z1, h1, h1'⟩ := hD b1 skA
  obtain ⟨z2, h2, h2'⟩ := hD skB a2
  obtain ⟨z3, h3, h3'⟩ := hD b3 a3
  refine ⟨(z1, z2, z3), ?_, ?_⟩
  · simp only [dhLegs, ttDhShared, h1, h2, h3, Option.map_some]
  · simp only [dhLegs, ttDhShared, h1', h2', h3', Option.map_some]

structure PendingKeys (C : Crypto) (s : TTSession) (peerPk : Key) : Prop where
  a2 : s.ephA2Pk = C.scalarmultBase s.ephA2Sk
  a3 : s.ephA3Pk = C.scalarmultBase s.ephA3Sk
  kem : ∃ seed, ttKemKeygen C seed = (s.kemPk, s.kemSk)
  sealKey : sealKeyDerive C s.ephA2Sk peerPk peerPk = some s.initSeal

def IsInit (C : Crypto) (s : TTSession) (ea : TTE2EEEnv) (f : Bytes) : Prop :=
  ∃ ρ cap, buildInit C s ea ρ cap = some f

theorem buildInit_eq (s : TTSession) (ea : TTE2EEEnv) (ρ : Draws) (cap : ℕ) :
    buildInit C s ea ρ cap = ttFrameEncode C cap .init 0 ttFrameFlagKem s.initSeal ρ.nonce
      (handshakeHdr ea.selfPk s.ephA2Pk s.ephA3Pk s.kemPk.bytes) [] := rfl

theorem buildInit_isSome (hC : C.AeadCorrect) (s : TTSession) (ea : TTE2EEEnv) (ρ : Draws) {cap : ℕ}
    (hcap : ttFrameMax ≤ cap) : ∃ f, buildInit C s ea ρ cap = some f := by
  rw [buildInit_eq]
  refine ttFrameEncode_isSome hC 0 _ _ (by decide) ?_ ?_ (fun h => by cases h)
  · rw [handshakeHdr_length, Blob.bytes_length]
    rfl
  · have hn : frameNonceLen ttFrameFlagKem = 24 := rfl
    simp only [ttFrameMax] at hcap
    rw [handshakeHdr_length, Blob.bytes_length, hn, List.length_nil]
    omega

theorem IsInit.peek (h : IsInit C s ea f) : ∃ d, ttFramePeek f = some d ∧ d.type = some .init ∧
    d.hdr = handshakeHdr ea.selfPk s.ephA2Pk s.ephA3Pk s.kemPk.bytes ∧ d.seq = 0 := by
  obtain ⟨ρ, cap, hb⟩ := h
  rw [buildInit_eq] at hb
  exact ⟨_, ttFramePeek_encode (by decide) hb, rfl, rfl, rfl⟩

theorem IsInit.opens (hC : C.AeadCorrect) (hD : C.DhCommutes) (hF : Friends C ea eb)
    (hs : PendingKeys C s eb.selfPk) (h : IsInit C s ea f) :
    ∃ key, sealKeyDerive C eb.selfSk s.ephA2Pk eb.selfPk = some key ∧
      ∃ d, ttFramePeek f = some d ∧ ttFrameDecode C f key 16 = some (d, []) := by
  obtain ⟨key, h1, h2⟩ := sealKeyDerive_agree hD s.ephA2Sk eb.selfSk eb.selfPk
  rw [← hF.selfPk_right, hs.sealKey] at h1
  cases h1
  refine ⟨s.initSeal, by rw [hs.a2]; exact h2, ?_⟩
  obtain ⟨ρ, cap, hb⟩ := h
  rw [buildInit_eq] at hb
  exact ⟨_, ttFramePeek_encode (by decide) hb,
    ttFrameDecode_encode hC _ (by decide) hb (by simp)⟩

theorem IsInit.initOpens (hC : C.AeadCorrect) (hD : C.DhCommutes) (hF : Friends C ea eb)
    (hs : PendingKeys C s eb.selfPk) (h : IsInit C s ea f) {d : TTFrameDesc}
    (hd : ttFramePeek f = some d) : initOpens C eb f d = true := by
  obtain ⟨d', hp, -, hh, hq⟩ := h.peek
  obtain ⟨key, hk, d'', hp', hdec⟩ := h.opens hC hD hF hs
  rw [hd] at hp hp'
  cases hp
  cases hp'
  simp only [TkTox.initOpens, hh, hdrEph1_handshakeHdr, hk, hdec, hq]
  rfl

theorem ttSessionStart_spec (hC : C.AeadCorrect) (hD : C.DhCommutes) (hF : Friends C ea eb)
    (s : TTSession) (ρ : Draws) (now : ℤ) (cap : ℕ) (hcap : ttFrameMax ≤ cap) :
    ∃ s' f, ttSessionStart C s ea ρ now cap = (s', .ok f) ∧ PendingKeys C s' eb.selfPk ∧
      IsInit C s' ea f ∧ s'.active = false ∧ s'.iAmInitiator = true ∧ s'.initPending = true ∧
      s'.replyDue = false ∧ s'.replyCache = [] := by
  obtain ⟨key, h1, -⟩ := sealKeyDerive_agree hD (ttDhKeygen C ρ.eph1).2 eb.selfSk eb.selfPk
  rw [← hF.selfPk_right] at h1
  unfold ttSessionStart
  simp only [hF.peerPk_left, h1]
  obtain ⟨f, hf⟩ := buildInit_isSome hC
    { reestablishPreserve s with
      iAmInitiator := true, initPending := true, initAt := now
      ephA2Pk := (ttDhKeygen C ρ.eph1).1, ephA2Sk := (ttDhKeygen C ρ.eph1).2
      ephA3Pk := (ttDhKeygen C ρ.eph2).1, ephA3Sk := (ttDhKeygen C ρ.eph2).2
      kemPk := (ttKemKeygen C ρ.kemSeed).1, kemSk := (ttKemKeygen C ρ.kemSeed).2
      initSeal := key } ea ρ hcap
  simp only [hf]
  exact ⟨_, f, rfl, ⟨rfl, rfl, ⟨ρ.kemSeed, rfl⟩, h1⟩, ⟨ρ, cap, hf⟩, rfl, rfl, rfl, rfl, rfl⟩

theorem ttSessionTick_spec (s : TTSession) (ea : TTE2EEEnv) (ρ : Draws) (now : ℤ) (cap : ℕ) :
    ttSessionTick C s ea ρ now cap = (s, .ok []) ∨
    (s.initPending = true ∧ (ttSessionTick C s ea ρ now cap).1 = { s with initAt := now } ∧
      (okBytes (ttSessionTick C s ea ρ now cap).2 = [] ∨
        IsInit C s ea (okBytes (ttSessionTick C s ea ρ now cap).2))) := by
  unfold ttSessionTick
  by_cases h : s.initPending = false ∨ now - s.initAt < 5
  · exact Or.inl (if_pos h)
  · rw [if_neg h]
    refine Or.inr ⟨by simpa using (not_or.mp h).1, rfl, ?_⟩
    change (buildInit C s ea ρ cap).getD [] = [] ∨ IsInit C s ea ((buildInit C s ea ρ cap).getD [])
    cases hb : buildInit C s ea ρ cap with
    | none => exact Or.inl rfl
    | some f => exact Or.inr ⟨ρ, cap, hb⟩

structure ReplyKeys (C : Crypto) (t : TTSession) (ρ : Draws) (kemPk : KemPk) : Prop where
  b1Sk : t.ephB1Sk = ρ.eph1
  b1Pk : t.ephB1Pk = C.scalarmultBase ρ.eph1
  b3Pk : t.ephB3Pk = C.scalarmultBase ρ.eph2
  kemCt : t.kemCt = (ttKemEnc C ρ.encSeed kemPk).1

structure Established (C : Crypto) (t : TTSession) (root : Key) (initiator : Bool) : Prop where
  active : t.active = true
  role : t.iAmInitiator = initiator
  notPending : t.initPending = false
  root_eq : t.root = root
  send_eq : t.send = ratchetReset C root initiator
  recv_eq : t.recv = ratchetReset C root !initiator

theorem acceptedInit_established (s : TTSession) (eb : TTE2EEEnv) (peerPk : Key) (ρ : Draws)
    (key : Key) (hdr : Bytes) (l : Key × Key × Key) :
    Established C (acceptedInit C s eb peerPk ρ key hdr l)
      (handshakeRoot C l.1 l.2.1 l.2.2 (ttKemEnc C ρ.encSeed (hdrKemPk hdr)).2 peerPk eb.selfPk)
      false :=
  ⟨rfl, rfl, rfl, rfl, rfl, rfl⟩

theorem acceptedInit_replyKeys (s : TTSession) (eb : TTE2EEEnv) (peerPk : Key) (ρ : Draws)
    (key : Key) (hdr : Bytes) (l : Key × Key × Key) :
    ReplyKeys C (acceptedInit C s eb peerPk ρ key hdr l) ρ (hdrKemPk hdr) :=
  ⟨rfl, rfl, rfl, rfl⟩

theorem acceptedReply_established (s : TTSession) (ea : TTE2EEEnv) (peerPk : Key) (ρ : Draws)
    (hdr : Bytes) (l : Key × Key × Key) :
    Established C (acceptedReply C s ea peerPk ρ hdr l)
      (handshakeRoot C l.1 l.2.1 l.2.2 (ttKemDec C (hdrKemCt hdr) s.kemSk) ea.selfPk peerPk) true :=
  ⟨rfl, rfl, rfl, rfl, rfl, rfl⟩

theorem acceptInit_isInit (hC : C.AeadCorrect) (hD : C.DhCommutes) (hF : Friends C ea eb)
    (hs : PendingKeys C s eb.selfPk) (h : IsInit C s ea f) {d : TTFrameDesc}
    (hd : ttFramePeek f = some d) (t : TTSession) (ρ : Draws) :
    ∃ key l, dhLegs C ρ.eph1 ea.selfPk eb.selfSk s.ephA2Pk ρ.eph2 s.ephA3Pk = some l ∧
      acceptInit C t eb ea.selfPk ρ f d =
        ⟨acceptedInit C t eb ea.selfPk ρ key d.hdr l, .ok [], true⟩ := by
  obtain ⟨d', hp, -, hh, -⟩ := h.peek
  obtain ⟨key, hk, d'', hp', hdec⟩ := h.opens hC hD hF hs
  rw [hd] at hp hp'
  cases hp
  cases hp'
  obtain ⟨l, hl, -⟩ := dhLegs_agree hD ea.selfSk s.ephA2Sk s.ephA3Sk eb.selfSk ρ.eph1 ρ.eph2
  rw [← hF.selfPk_left, ← hs.a2, ← hs.a3] at hl
  refine ⟨key, l, hl, ?_⟩
  unfold acceptInit
  simp only [hh, hdrEph1_handshakeHdr, hk, hdec, responderScratch, ttDhKeygen,
    hdrEph2_handshakeHdr, hl, acceptedInit]

def IsReply (C : Crypto) (t : TTSession) (ea eb : TTE2EEEnv) (f : Bytes) : Prop :=
  ∃ (key : Key) (ρ : Draws) (cap : ℕ), sealKeyDerive C t.ephB1Sk ea.selfPk ea.selfPk = some key ∧
    ttFrameEncode C cap .reply 0 ttFrameFlagKem key ρ.nonce
      (handshakeHdr eb.selfPk t.ephB1Pk t.ephB3Pk t.kemCt.bytes) [] = some f

theorem IsReply.peek (h : IsReply C t ea eb f) : ∃ d, ttFramePeek f = some d ∧
    d.type = some .reply ∧ d.hdr = handshakeHdr eb.selfPk t.ephB1Pk t.ephB3Pk t.kemCt.bytes := by
  obtain ⟨key, ρ, cap, -, he⟩ := h
  exact ⟨_, ttFramePeek_encode (by decide) he, rfl, rfl⟩

theorem ttSessionReply_spec (hC : C.AeadCorrect) (hD : C.DhCommutes) (hF : Friends C ea eb)
    (hdue : t.replyDue = true) (ρ : Draws) (cap : ℕ) (hcap : ttFrameMax ≤ cap) :
    ∃ f, ttSessionReply C t eb ρ cap =
        ({ t with replyDue := false, replyCache := f }, .ok f) ∧ IsReply C t ea eb f := by
  obtain ⟨key, h1, -⟩ := sealKeyDerive_agree hD t.ephB1Sk ea.selfSk ea.selfPk
  rw [← hF.selfPk_left] at h1
  obtain ⟨f, hf⟩ : ∃ f, ttFrameEncode C cap .reply 0 ttFrameFlagKem key ρ.nonce
      (handshakeHdr eb.selfPk t.ephB1Pk t.ephB3Pk t.kemCt.bytes) [] = some f := ttFrameEncode_isSome
    hC 0 key ρ.nonce (by decide)
    (by rw [handshakeHdr_length, Blob.bytes_length]; rfl)
    (by
      have hn : frameNonceLen ttFrameFlagKem = 24 := rfl
      simp only [ttFrameMax] at hcap
      rw [handshakeHdr_length, Blob.bytes_length, hn, List.length_nil]
      omega)
    (fun h => by cases h)
  refine ⟨f, ?_, key, ρ, cap, h1, hf⟩
  rw [handshakeHdr] at hf
  unfold ttSessionReply
  simp only [hF.peerPk_right, hdue, Bool.true_eq_false, ↓reduceIte, h1, hf]

theorem feedReply_isReply (hC : C.AeadCorrect) (hD : C.DhCommutes) (hK : C.KemCorrect)
    (hF : Friends C ea eb) (hs : PendingKeys C s eb.selfPk) (hp : s.initPending = true)
    (ha : s.active = false) {ρ₀ : Draws} (hr : ReplyKeys C t ρ₀ s.kemPk) (h : IsReply C t ea eb f)
    {d : TTFrameDesc} (hd : ttFramePeek f = some d) (ρ : Draws) :
    ∃ l, dhLegs C ρ₀.eph1 ea.selfPk eb.selfSk s.ephA2Pk ρ₀.eph2 s.ephA3Pk = some l ∧
      feedReply C s ea ρ f d =
        ⟨acceptedReply C s ea eb.selfPk ρ d.hdr l, .ok [], true⟩ ∧
      ttKemDec C (hdrKemCt d.hdr) s.kemSk = (ttKemEnc C ρ₀.encSeed s.kemPk).2 := by
  obtain ⟨l, hl, hl'⟩ := dhLegs_agree hD ea.selfSk s.ephA2Sk s.ephA3Sk eb.selfSk ρ₀.eph1 ρ₀.eph2
  rw [← hF.selfPk_left, ← hs.a2, ← hs.a3] at hl
  obtain ⟨seed, hkem⟩ := hs.kem
  obtain ⟨key, ρ', cap, hk, he⟩ := h
  have hpk := ttFramePeek_encode (by decide) he
  rw [hd] at hpk
  cases hpk
  obtain ⟨key', h1, h2⟩ := sealKeyDerive_agree hD t.ephB1Sk ea.selfSk ea.selfPk
  rw [← hF.selfPk_left, hk] at h1
  cases h1
  rw [hr.b1Sk, ← hr.b1Pk] at h2
  have hdec := ttFrameDecode_encode hC 16 (by decide) he (by simp)
  refine ⟨l, hl, ?_, ?_⟩
  · unfold feedReply
    rw [if_neg (by simp [hp, ha]), if_neg (by
      rw [handshakeHdr_length, Blob.bytes_length]
      decide)]
    simp only [hF.peerPk_left, hdrIk_handshakeHdr, ne_eq, not_true_eq_false, ↓reduceIte,
      hdrEph1_handshakeHdr, h2, hdec, hdrEph2_handshakeHdr]
    rw [hr.b1Pk, hr.b3Pk, hF.selfPk_right, hl']
    rfl
  · rw [hdrKemCt_handshakeHdr, hr.kemCt]
    have := hK seed ρ₀.encSeed
    simp only [ttKemKeygen] at hkem
    rw [hkem] at this
    exact this

end TkTox
