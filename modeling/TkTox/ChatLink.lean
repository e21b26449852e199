import TkTox.Collision
import TkTox.RekeyAgreement

/-!
A live session of the chat engine and the frames it puts on the link: DATA frames and ACKs of the
reliable transport. The re-key invariant of a pair of sessions carries over to a pair that sends,
acknowledges and receives in this way.
-/

namespace TkTox

variable {C : Crypto} {s s' s'' : TTSession} {root : Key} {f text : Bytes} {m : Sent}

structure SameShake (s s' : TTSession) : Prop where
  active : s'.active = s.active
  lossy : s'.lossy = s.lossy
  role : s'.iAmInitiator = s.iAmInitiator
  initPending : s'.initPending = s.initPending
  replyDue : s'.replyDue = s.replyDue
  root : s'.root = s.root

theorem SameShake.refl (s : TTSession) : SameShake s s := ⟨rfl, rfl, rfl, rfl, rfl, rfl⟩

theorem SameShake.trans (h : SameShake s s') (h' : SameShake s' s'') : SameShake s s'' :=
  ⟨h'.active.trans h.active, h'.lossy.trans h.lossy, h'.role.trans h.role,
    h'.initPending.trans h.initPending, h'.replyDue.trans h.replyDue, h'.root.trans h.root⟩

structure SameLink (s s' : TTSession) : Prop where
  shake : SameShake s s'
  send : s'.send = s.send
  recv : s'.recv = s.recv
  rekey : s'.rekey = s.rekey

theorem SameLink.refl (s : TTSession) : SameLink s s := ⟨.refl s, rfl, rfl, rfl⟩

theorem SameLink.keys (h : SameLink s s') (hk : RekeyKeys C s) : RekeyKeys C s' :=
  hk.of_own h.shake.active h.shake.lossy (by rw [h.rekey]) (by rw [h.rekey])
    (by rw [h.send]; exact hk.seq_lt)

structure NoResends (s : TTSession) : Prop where
  request : s.rel.resendReqPending = false
  reply : s.rel.resendRepPending = false

theorem NoResends.of_rel (h : NoResends s) (hq : s'.rel.resendReqPending = s.rel.resendReqPending)
    (hp : s'.rel.resendRepPending = s.rel.resendRepPending) : NoResends s' :=
  ⟨hq.trans h.request, hp.trans h.reply⟩

inductive LinkFrame
  | text (m : Sent)
  | ack (f : Bytes)

def LinkFrame.frame : LinkFrame → Bytes
  | .text m => m.frame
  | .ack f => f

def LinkFrame.sent : LinkFrame → Option Sent
  | .text m => some m
  | .ack _ => none

def linkSents (l : List LinkFrame) : List Sent := l.filterMap LinkFrame.sent

def linkTexts (l : List LinkFrame) : List Bytes := (linkSents l).map Sent.text

@[simp] theorem linkSents_nil : linkSents [] = [] := rfl

@[simp] theorem linkSents_text (m : Sent) (l : List LinkFrame) :
    linkSents (.text m :: l) = m :: linkSents l := rfl

@[simp] theorem linkSents_ack (f : Bytes) (l : List LinkFrame) :
    linkSents (.ack f :: l) = linkSents l := rfl

@[simp] theorem linkSents_append (l l' : List LinkFrame) :
    linkSents (l ++ l') = linkSents l ++ linkSents l' := List.filterMap_append

@[simp] theorem linkTexts_nil : linkTexts [] = [] := rfl

@[simp] theorem linkTexts_text (m : Sent) (l : List LinkFrame) :
    linkTexts (.text m :: l) = m.text :: linkTexts l := rfl

@[simp] theorem linkTexts_ack (f : Bytes) (l : List LinkFrame) :
    linkTexts (.ack f :: l) = linkTexts l := rfl

@[simp] theorem linkTexts_append (l l' : List LinkFrame) :
    linkTexts (l ++ l') = linkTexts l ++ linkTexts l' := by
  rw [linkTexts, linkSents_append, List.map_append]
  rfl

def IsAck (C : Crypto) (root : Key) (f : Bytes) : Prop :=
  ∃ cap nonce a b, ttFrameEncode C cap .ack 0 0 (controlKey C root) nonce [] (u32be a ++ u32be b) =
    some f

def AcksOn (C : Crypto) (root : Key) (l : List LinkFrame) : Prop := ∀ f, .ack f ∈ l → IsAck C root f

theorem AcksOn.append {l l' : List LinkFrame} (h : AcksOn C root l) (h' : AcksOn C root l') :
    AcksOn C root (l ++ l') := by
  intro f hf
  obtain hf | hf := List.mem_append.mp hf
  · exact h f hf
  · exact h' f hf

theorem ttSessionRelPoll_ack (h : NoResends s) (cap : ℕ) (ρ : ℕ → Draws) :
    ∃ due, (ttSessionRelPoll C s cap ρ).1 = { s with rel := { s.rel with ackDue := due } } ∧
      ((ttSessionRelPoll C s cap ρ).2 = [] ∨ IsAck C s.root (ttSessionRelPoll C s cap ρ).2) := by
  have hq : ¬ s.rel.resendReqPending = true := by simp [h.request]
  have hp : ¬ s.rel.resendRepPending = true := by simp [h.reply]
  by_cases ha : s.active = false
  · rw [ttSessionRelPoll, if_pos ha]
    exact ⟨s.rel.ackDue, rfl, Or.inl rfl⟩
  by_cases hd : s.rel.ackDue = true
  · rw [ttSessionRelPoll, if_neg ha, if_neg hq, if_neg hp, if_pos hd]
    refine ⟨false, rfl, ?_⟩
    change controlFrame C s .ack s.rel.recvAcked (relGen C s.root) cap (ρ 0) = [] ∨ IsAck C s.root _
    unfold controlFrame
    cases he : ttFrameEncode C cap .ack 0 0 (controlKey C s.root) (ρ 0).nonce []
        (u32be s.rel.recvAcked ++ u32be (relGen C s.root)) with
    | none => exact Or.inl rfl
    | some g => exact Or.inr ⟨cap, _, _, _, he⟩
  · rw [ttSessionRelPoll, if_neg ha, if_neg hq, if_neg hp, if_neg hd]
    exact ⟨s.rel.ackDue, rfl, Or.inl rfl⟩

theorem ttSessionFeed_ack (hC : C.AeadCorrect) (ha : s.active = true) (hl : s.lossy = false)
    (hf : IsAck C s.root f) (env : TTE2EEEnv) (ρ : Draws) (cap : ℕ) :
    ∃ sent, ttSessionFeed C s env ρ f cap =
      ⟨{ s with rel := { s.rel with sent := sent } }, .ok [], false⟩ := by
  obtain ⟨cap', nonce, a, b, he⟩ := hf
  have hz : (0 : ℕ) < 2 ^ 32 := by decide
  have hlen : (u32be a ++ u32be b).length = 8 := by simp [u32be]
  have hpeek := ttFramePeek_encode hz he
  have hdec := ttFrameDecode_encode hC 16 hz he (by omega)
  have ha' : ¬ s.active = false := by simp [ha]
  have hl' : ¬ s.lossy = true := by simp [hl]
  refine ⟨relSentAck s.rel.sent (readU32 ((u32be a ++ u32be b).drop 4)) (readU32 (u32be a ++ u32be b)), ?_⟩
  simp only [ttSessionFeed, hpeek, feedControl, if_neg ha', if_neg hl', hdec, hlen, List.length_nil,
    ne_eq, not_true_eq_false, ↓reduceIte]

theorem ttSessionSend_live (hC : C.AeadCorrect) (hk : RekeyKeys C s) (hroom : RekeyRoom C text)
    (ρ : Draws) : ∃ m, (ttSessionSend C s text ttFrameMax ρ).2 = .ok m.frame ∧ m.frame ≠ [] ∧
      m.text = text ∧ SendSpec C s (ttSessionSend C s text ttFrameMax ρ).1 m ∧
      SameShake s (ttSessionSend C s text ttFrameMax ρ).1 ∧
      (ttSessionSend C s text ttFrameMax ρ).1.pending = s.pending ∧
      (NoResends s → NoResends (ttSessionSend C s text ttFrameMax ρ).1) := by
  obtain ⟨m, hm, ht, hspec⟩ := ttSessionSend_spec hC hk hroom ρ
  have hsend : ttSessionSend C s text ttFrameMax ρ = emitFrame C s (fun _ => text) ttFrameMax false ρ := by
    rw [ttSessionSend, if_neg (not_lt.mpr hroom.le), if_neg (by simp [hk.active])]
  rw [sentBy] at hm
  rw [hsend] at hm hspec ⊢
  obtain ⟨hlossy, -, -⟩ | ⟨-, -, he⟩ | ⟨-, g, hg, he⟩ :=
    emitFrame_cases C s (fun _ => text) ttFrameMax false ρ
  · rw [hk.reliable] at hlossy
    cases hlossy
  · rw [he] at hm
    cases hm
  · rw [he] at hm hspec ⊢
    have hmf : m.frame = g := by rw [← Option.some.inj hm]
    have hfold (t : TTSession) (fold : Option (Key × Key)) : SameShake t (finishFold C t fold) ∧
        (finishFold C t fold).pending = t.pending ∧ (finishFold C t fold).rel = t.rel := by
      cases fold <;> exact ⟨⟨rfl, rfl, rfl, rfl, rfl, rfl⟩, rfl, rfl⟩
    refine ⟨m, by rw [hmf], ?_, ht, hspec, ?_⟩
    · rw [hmf]
      exact (emitEncode_length_le hg).2.2
    rw [emitDone_reliable hk.reliable]
    obtain ⟨hs, hp, hr⟩ := hfold { emitDrawn C s false ρ with rel := { s.rel with
      sent := relSentAdd s.rel.sent (relGen C s.root) s.send.seq fun _ => text } }
      (emitHdr C s false ρ).fold
    refine ⟨⟨hs.active, hs.lossy, hs.role, hs.initPending, hs.replyDue, hs.root⟩, hp, fun hn => ?_⟩
    exact hn.of_rel (by rw [hr]) (by rw [hr])

theorem ackMark_mark (s : TTSession) : ∃ mark due,
    ackMark s = { s with rel := { s.rel with recvAcked := mark, ackDue := due } } := by
  unfold ackMark
  dsimp only
  split_ifs
  · exact ⟨_, true, rfl⟩
  · exact ⟨s.rel.recvAcked, s.rel.ackDue, rfl⟩

theorem ttSessionFeed_live (hC : C.AeadCorrect) (hk : RekeyKeys C s) (hm : m.On C s.recv)
    (env : TTE2EEEnv) (ρ : Draws) :
    (ttSessionFeed C s env ρ m.frame ttFrameDataMax).handshaked = false ∧
      SameShake s (ttSessionFeed C s env ρ m.frame ttFrameDataMax).session ∧
      (ttSessionFeed C s env ρ m.frame ttFrameDataMax).session.pending = s.pending ∧
      (NoResends s → NoResends (ttSessionFeed C s env ρ m.frame ttFrameDataMax).session) := by
  obtain ⟨rel, hf⟩ := ttSessionFeed_on hC hk hm env ρ
  have hret : (ttSessionFeed C s env ρ m.frame ttFrameDataMax).ret = .ok m.text := by rw [hf]
  obtain ⟨⟨flags, nonce, he⟩, hseq, -, -, -, -⟩ := hm
  have hpeek := ttFramePeek_encode hseq he
  have hdata : ttSessionFeed C s env ρ m.frame ttFrameDataMax =
      feedData C { s with lastIn := m.frame } ρ m.frame
        ⟨some .data, flags, s.recv.seq, nonce.bytes.take (frameNonceLen flags), m.hdr, m.text.length⟩
        ttFrameDataMax := by
    simp only [ttSessionFeed, hpeek]
  rw [hdata] at hret ⊢
  obtain ⟨e, h⟩ | ⟨-, key, taken, -, -, h⟩ | ⟨-, key, taken, pt, -, -, h⟩ :=
    feedData_cases (C := C) (s := { s with lastIn := m.frame }) (ρ := ρ) ttFrameDataMax hpeek
  · rw [h] at hret
    cases hret
  · rw [h] at hret
    cases hret
  · rw [h]
    dsimp only [acceptedData]
    obtain ⟨mark, due, ha⟩ := ackMark_mark { s with
      lastIn := m.frame, recv := taken.getD (recvCommit C s.recv s.recv.seq) }
    rw [ha]
    obtain ⟨recv, rekey, hh⟩ := applyHdr_frame (C := C) { s with
      lastIn := m.frame, recv := taken.getD (recvCommit C s.recv s.recv.seq)
      rel := { s.rel with recvAcked := mark, ackDue := due } } m.hdr ρ
    rw [hh]
    exact ⟨rfl, ⟨rfl, rfl, rfl, rfl, rfl, rfl⟩, rfl, fun hn => ⟨hn.request, hn.reply⟩⟩

inductive Emits (C : Crypto) : TTSession → List LinkFrame → TTSession → Prop
  | nil {s : TTSession} : Emits C s [] s
  | quiet {s t s' : TTSession} {l : List LinkFrame} (h : SameLink s t) (rest : Emits C t l s') : Emits C s l s'
  | text {s t s' : TTSession} {m : Sent} {l : List LinkFrame} (h : SendSpec C s t m) (hs : SameShake s t)
      (rest : Emits C t l s') : Emits C s (.text m :: l) s'
  | ack {s s' : TTSession} {f : Bytes} {l : List LinkFrame} (h : IsAck C s.root f) (rest : Emits C s l s') :
      Emits C s (.ack f :: l) s'

namespace Emits

variable {l l' : List LinkFrame}

theorem of_link (h : SameLink s s') : Emits C s [] s' := .quiet h .nil

theorem trans (h : Emits C s l s') (h' : Emits C s' l' s'') : Emits C s (l ++ l') s'' := by
  induction h with
  | nil => exact h'
  | quiet h _ ih => exact .quiet h (ih h')
  | text h hs _ ih => exact .text h hs (ih h')
  | ack h _ ih => exact .ack h (ih h')

theorem shake (h : Emits C s l s') : SameShake s s' := by
  induction h with
  | nil => exact .refl _
  | quiet h _ ih => exact h.shake.trans ih
  | text _ hs _ ih => exact hs.trans ih
  | ack _ _ ih => exact ih

theorem recv (h : Emits C s l s') : s'.recv = s.recv := by
  induction h with
  | nil => rfl
  | quiet h _ ih => exact ih.trans h.recv
  | text h _ _ ih => exact ih.trans h.recv
  | ack _ _ ih => exact ih

theorem keys (h : Emits C s l s') (hk : RekeyKeys C s) : RekeyKeys C s' := by
  induction h with
  | nil => exact hk
  | quiet h _ ih => exact ih (h.keys hk)
  | text h _ _ ih => exact ih h.keys
  | ack _ _ ih => exact ih hk

theorem acks (h : Emits C s l s') : AcksOn C s.root l := by
  induction h with
  | nil => intro f hf; simp at hf
  | quiet h _ ih =>
    rw [h.shake.root] at ih
    exact ih
  | text _ hs _ ih =>
    rw [hs.root] at ih
    intro f hf
    rw [List.mem_cons] at hf
    obtain hf | hf := hf
    · cases hf
    · exact ih f hf
  | ack h _ ih =>
    intro f hf
    rw [List.mem_cons] at hf
    obtain hf | hf := hf
    · cases hf
      exact h
    · exact ih f hf

theorem no_target (h : Emits C s l s') (hp : s.rekey.peerHave = false) :
    s'.rekey.peerHave = false ∧ ∀ m ∈ linkSents l, m.target = none := by
  induction h with
  | nil => exact ⟨hp, by simp⟩
  | quiet h _ ih =>
    rw [h.rekey] at ih
    exact ih hp
  | @text s t s' m l h _ _ ih =>
    have hkind : m.target = none ∧ t.rekey.peerHave = s.rekey.peerHave := by
      rcases h.kind with ⟨-, -, ht, hk⟩ | ⟨-, -, ht, hk⟩ | ⟨seed, dh, hc, -⟩
      · exact ⟨ht, congrArg Prod.fst hk⟩
      · exact ⟨ht, congrArg Prod.fst hk⟩
      · rw [hp] at hc
        cases hc
    obtain ⟨h1, h2⟩ := ih (hkind.2.trans hp)
    refine ⟨h1, fun n hn => ?_⟩
    rw [linkSents_text, List.mem_cons] at hn
    obtain rfl | hn := hn
    · exact hkind.1
    · exact h2 n hn
  | ack _ _ ih => exact ih hp

end Emits

namespace RekeyInv

variable {w : RekeyWorld}

theorem congr (h : RekeyInv C w) {sess : Bool → TTSession} (hs : ∀ i, SameLink (w.sess i) (sess i)) :
    RekeyInv C { w with sess := sess } where
  keys i := (hs i).keys (h.keys i)
  link i := (h.link i).congr (hs i).send (by rw [(hs i).rekey]) (hs !i).recv (by rw [(hs !i).rekey])

theorem snoc (hD : C.DhCommutes) (hK : C.KemCorrect) (h : RekeyInv C w) (i : Bool)
    (hs : SendSpec C (w.sess i) s' m) :
    RekeyInv C ⟨Function.update w.sess i s', Function.update w.wire i (w.wire i ++ [m]),
      Function.update w.used i (m.target.toList ++ w.used i)⟩ := by
  have hne : (!i) ≠ i := Bool.not_ne_self i
  constructor
  case keys =>
    refine forall_update i ?_ ?_
    · simp only [Function.update_self]
      exact hs.keys
    · simp only [Function.update_of_ne hne]
      exact h.keys _
  case link =>
    refine forall_update i ?_ ?_
    · simp only [Function.update_self, Function.update_of_ne hne]
      exact (h.link i).send hD hK (h.keys i) (h.keys _) hs
    · have hback := h.link !i
      rw [Bool.not_not] at hback
      simp only [Bool.not_not, Function.update_self, Function.update_of_ne hne]
      exact hback.send_back hs

theorem emits (hD : C.DhCommutes) (hK : C.KemCorrect) (h : RekeyInv C w) (i : Bool) {l : List LinkFrame}
    (hs : w.sess i = s) (he : Emits C s l s') :
    ∃ used, RekeyInv C ⟨Function.update w.sess i s', Function.update w.wire i (w.wire i ++ linkSents l),
        used⟩ ∧
      used (!i) = w.used (!i) ∧
      ∀ pk ∈ used i, pk ∈ w.used i ∨ ∃ m ∈ linkSents l, m.target = some pk := by
  have hne : (!i) ≠ i := Bool.not_ne_self i
  induction he generalizing w with
  | nil =>
    refine ⟨w.used, ?_, rfl, fun pk hpk => Or.inl hpk⟩
    rw [linkSents_nil, List.append_nil, ← hs, Function.update_eq_self, Function.update_eq_self]
    exact h
  | @quiet s t s' l hl _ ih =>
    have hsess : ∀ j, SameLink (w.sess j) (Function.update w.sess i t j) := by
      refine forall_update i ?_ ?_
      · rw [Function.update_self, hs]
        exact hl
      · rw [Function.update_of_ne hne]
        exact .refl _
    obtain ⟨used, hi, hu, ht⟩ := ih (h.congr hsess) (Function.update_self ..)
    rw [Function.update_idem] at hi
    exact ⟨used, hi, hu, ht⟩
  | @text s t s' m l hm _ _ ih =>
    subst hs
    obtain ⟨used, hi, hu, ht⟩ := ih (h.snoc hD hK i hm) (Function.update_self ..)
    dsimp only at hi hu ht
    rw [Function.update_idem, Function.update_idem, Function.update_self, List.append_assoc,
      List.singleton_append] at hi
    refine ⟨used, hi, ?_, fun pk hpk => ?_⟩
    · rw [hu, Function.update_of_ne hne]
    · obtain hp | ⟨n, hn, hp⟩ := ht pk hpk
      · rw [Function.update_self, List.mem_append, Option.mem_toList] at hp
        obtain hp | hp := hp
        · exact Or.inr ⟨m, by simp, hp⟩
        · exact Or.inl hp
      · exact Or.inr ⟨n, by simp [hn], hp⟩
  | ack _ _ ih => exact ih h hs

theorem take (h : RekeyInv C w) {i : Bool} {rest : List Sent} (hw : w.wire i = m :: rest)
    (hm : DeliverSpec C (w.sess !i) s' m)
    (hfresh : m.hdr.length = ttHdrDataKempub → pubKemPk m.hdr ∉ w.used !i) :
    RekeyInv C ⟨Function.update w.sess (!i) s', Function.update w.wire i rest, w.used⟩ := by
  have hne : (!i) ≠ i := Bool.not_ne_self i
  have hne' : i ≠ !i := hne.symm
  constructor
  case keys =>
    refine forall_update i ?_ ?_
    · simp only [Function.update_of_ne hne']
      exact h.keys i
    · simp only [Function.update_self]
      exact hm.keys
  case link =>
    refine forall_update i ?_ ?_
    · have hl := h.link i
      rw [hw] at hl
      simp only [Function.update_self, Function.update_of_ne hne, Function.update_of_ne hne']
      exact hl.deliver hm
    · have hl := h.link !i
      rw [Bool.not_not, hw] at hl
      simp only [Bool.not_not, Function.update_self, Function.update_of_ne hne,
        Function.update_of_ne hne']
      exact hl.deliver_back hm hfresh

end RekeyInv

/-! ### A new session -/

structure NewSession (C : Crypto) (s : TTSession) (root : Key) (initiator : Bool) : Prop where
  just : JustEstablished C s root initiator
  est : Established C s root initiator
  unpublished : s.rekey.peerHave = false
  answered : s.replyDue = false

section

variable {s t : TTSession} {ea eb : TTE2EEEnv} {ρ σ : Draws}

theorem receive_init (hC : C.AeadCorrect) (hD : C.DhCommutes) (hF : Friends C ea eb)
    (hs : PendingKeys C s eb.selfPk) (hf : IsInit C s ea f) (ha : t.active = false)
    (hy : t.iAmInitiator = true → t.initPending = true → ea.selfPk.bytes < eb.selfPk.bytes)
    (hl : t.lossy = false) (hp : t.rekey.peerHave = false) :
    (ttSessionFeed C t eb ρ f ttFrameDataMax).handshaked = true ∧
      (ttSessionFeed C t eb ρ f ttFrameDataMax).ret = .ok [] ∧
      (∃ root, NewSession C (receive C t eb ρ σ f).1 root false) ∧
      (receive C t eb ρ σ f).1.rel = t.rel ∧
      Answered C ea eb s (receive C t eb ρ σ f).1 (receive C t eb ρ σ f).2 ∧
      (receive C t eb ρ σ f).1.pending = t.pending := by
  have hret : t.active = false ∨ t.iAmInitiator = true := Or.inl ha
  have hy' : (t.iAmInitiator && (t.active || t.initPending)) = true →
      t.active = true ∨ ea.selfPk.bytes < eb.selfPk.bytes := by
    intro h
    rw [ha, Bool.false_or, Bool.and_eq_true] at h
    exact Or.inr (hy h.1 h.2)
  obtain ⟨hans, hpend⟩ := receive_fresh (ρ := ρ) (σ := σ) hC hD hF hs hf hret hy'
  obtain ⟨d, hd, ht, hh, -⟩ := hf.peek
  have hopen : initReachesOpen C t eb f d := by
    refine ⟨ht, ?_, ?_, ?_⟩
    · rw [hh, handshakeHdr_length, Blob.bytes_length]
    · rw [hh, hdrIk_handshakeHdr, hF.peerPk_right]
    · simp [ha]
  obtain ⟨key, l, -, hacc⟩ := acceptInit_isInit hC hD hF hs hf hd (initTarget t) ρ
  have hfeed : ttSessionFeed C t eb ρ f ttFrameDataMax =
      ⟨acceptedInit C (initTarget t) eb ea.selfPk ρ key d.hdr l, .ok [], true⟩ := by
    simp only [ttSessionFeed, hd, ht]
    rw [feedInit_reaches hopen, hh, hdrIk_handshakeHdr, ← hh, ← hacc, initTarget]
    by_cases hi : (t.iAmInitiator && (t.active || t.initPending)) = true
    · have hyield : yieldsTo t eb d = true := by
        rw [yieldsTo, hh, handshakeHdr_take]
        obtain h | h := hy' hi <;> simp [h]
      simp only [if_pos hi, if_pos hyield]
    · simp only [if_neg hi]
  obtain ⟨g, hg, -⟩ := ttSessionReply_spec hC hD hF
    (t := acceptedInit C (initTarget t) eb ea.selfPk ρ key d.hdr l) rfl σ ttFrameMax le_rfl
  have htarget : (initTarget t).lossy = false ∧ (initTarget t).rekey.peerHave = false ∧
      (initTarget t).rel = t.rel := by
    unfold initTarget
    split_ifs
    · exact ⟨hl, rfl, rfl⟩
    · exact ⟨hl, hp, rfl⟩
  have hrecv : (receive C t eb ρ σ f).1 =
      { acceptedInit C (initTarget t) eb ea.selfPk ρ key d.hdr l with
        replyDue := false, replyCache := g } := by
    have hdue : (acceptedInit C (initTarget t) eb ea.selfPk ρ key d.hdr l).replyDue = true := rfl
    simp only [receive, hfeed, hg, if_pos hdue]
  rw [hfeed]
  refine ⟨rfl, rfl, ?_, ?_, hans, hpend⟩
  · rw [hrecv]
    exact ⟨_, ⟨rfl, htarget.1, rfl, rfl, rfl, rfl, ⟨ρ.kemSeed, rfl⟩⟩, ⟨rfl, rfl, rfl, rfl, rfl, rfl⟩,
      htarget.2.1, rfl⟩
  · rw [hrecv]
    exact htarget.2.2

theorem receive_answer (hC : C.AeadCorrect) (hD : C.DhCommutes) (hK : C.KemCorrect)
    (hF : Friends C ea eb) (hs : PendingSession C s eb.selfPk) (ht : Answered C ea eb s t f)
    (hl : s.lossy = false) (hp : s.rekey.peerHave = false) :
    (ttSessionFeed C s ea ρ f ttFrameDataMax).handshaked = true ∧
      (ttSessionFeed C s ea ρ f ttFrameDataMax).ret = .ok [] ∧
      NewSession C (receive C s ea ρ σ f).1 t.root true ∧ (receive C s ea ρ σ f).2 = [] ∧
      (receive C s ea ρ σ f).1.rel = s.rel ∧ (receive C s ea ρ σ f).1.pending = s.pending := by
  obtain ⟨root, htr, hest, hdue, hout, hpend⟩ := receive_reply (ρ := ρ) (σ := σ) hC hD hK hF hs ht
  obtain ⟨ρ₀, l, hl', hkeys, -⟩ := ht.root
  obtain ⟨d, hd, htype, -⟩ := ht.isReply.peek
  obtain ⟨l', -, hfeed, -⟩ := feedReply_isReply hC hD hK hF hs.keys hs.initPending hs.active hkeys
    ht.isReply hd ρ
  have hf : ttSessionFeed C s ea ρ f ttFrameDataMax =
      ⟨acceptedReply C s ea eb.selfPk ρ d.hdr l', .ok [], true⟩ := by
    simp only [ttSessionFeed, hd, htype, hfeed]
  have hrecv : (receive C s ea ρ σ f).1 = acceptedReply C s ea eb.selfPk ρ d.hdr l' := by
    have hd : ¬ (acceptedReply C s ea eb.selfPk ρ d.hdr l').replyDue = true := by
      simp [acceptedReply, establish, hs.replyDue]
    simp only [receive, hf, if_neg hd]
  rw [hf]
  rw [← htr.root_eq] at hest
  refine ⟨rfl, rfl, ⟨?_, hest, ?_, hdue⟩, hout, ?_, hpend⟩
  · refine ⟨hest.active, ?_, hest.send_eq, hest.recv_eq, ?_, ?_, ?_⟩ <;> rw [hrecv]
    · exact hl
    · rfl
    · rfl
    · exact ⟨ρ.kemSeed, rfl⟩
  · rw [hrecv]
    exact hp
  · rw [hrecv]
    rfl

theorem feed_again (hC : C.AeadCorrect) (hD : C.DhCommutes) (hF : Friends C ea eb)
    (hs : PendingKeys C s eb.selfPk) (hf : IsInit C s ea f) (ha : t.active = true)
    (hr : t.iAmInitiator = false) :
    ttSessionFeed C t eb ρ f ttFrameDataMax = ⟨t, .ok [], true⟩ := by
  obtain ⟨d, hd, htype, hh, -⟩ := hf.peek
  have ho := hf.initOpens hC hD hF hs hd
  have hlen : d.hdr.length = ttHdrInit := by rw [hh, handshakeHdr_length, Blob.bytes_length]
  have hik : hdrIk d.hdr = ea.selfPk := by rw [hh, hdrIk_handshakeHdr]
  simp only [ttSessionFeed, hd, htype, feedInit, hlen, hF.peerPk_right, hik, ne_eq,
    not_true_eq_false, ↓reduceIte, ha, hr, ho, Bool.not_false, Bool.and_self]

theorem feed_ignored {p : Key} (hF : Friends C ea eb) (hf : IsInit C s ea f)
    (ht : PendingSession C t p) (hlow : ¬ ea.selfPk.bytes < eb.selfPk.bytes) :
    ttSessionFeed C t eb ρ f ttFrameDataMax = ⟨t, .ok [], false⟩ := by
  obtain ⟨d, hd, htype, hh, -⟩ := hf.peek
  have hopen : initReachesOpen C t eb f d := by
    refine ⟨htype, ?_, ?_, ?_⟩
    · rw [hh, handshakeHdr_length, Blob.bytes_length]
    · rw [hh, hdrIk_handshakeHdr, hF.peerPk_right]
    · simp [ht.active]
  have hyield : yieldsTo t eb d = false := by
    rw [yieldsTo, hh, handshakeHdr_take]
    simp [ht.active, hlow]
  simp only [ttSessionFeed, hd, htype]
  rw [feedInit_reaches hopen, if_pos (by simp [ht.role, ht.initPending]), hyield]
  rfl

end

end TkTox
