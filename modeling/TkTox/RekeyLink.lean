import TkTox.FeedCases
import TkTox.SessionRun
import TkTox.HandshakeFrames

/-!
One direction of the re-key protocol between two reliable sessions: the DATA frames in
flight, what sending puts on the link and what delivering the oldest one does.
-/

namespace TkTox

variable {C : Crypto} {s r : TTSession} {env : TTE2EEEnv} {ρ : Draws} {text : Bytes}

def TTRatchet.core (r : TTRatchet) : Key × ℕ × Key := (r.chain, r.seq, r.root)

/-- A DATA frame in flight with what went into it: the text, the re-key header, the secrets
of a fold with the KEM key they were encapsulated to, and the sender's ratchet right after. -/
structure Sent where
  frame : Bytes
  text : Bytes
  hdr : Bytes
  fold : Option (Key × Key)
  target : Option KemPk
  after : TTRatchet

def RekeyRoom (C : Crypto) (text : Bytes) : Prop :=
  13 + (if C.gcmIsAvailable then 12 else 24) + ttHdrDataKempub + text.length + ttMac16 ≤ ttFrameMax

instance (C : Crypto) (text : Bytes) : Decidable (RekeyRoom C text) :=
  inferInstanceAs (Decidable (_ ≤ _))

def sentBy (C : Crypto) (s : TTSession) (text : Bytes) (ρ : Draws) : Option Sent :=
  match ttSessionSend C s text ttFrameMax ρ with
  | (s', .ok f) =>
    let choice := emitHdr C s false ρ
    some ⟨f, text, choice.hdr, choice.fold, choice.fold.map fun _ => s.rekey.peerKemPk, s'.send⟩
  | (_, .error _) => none

theorem sendAdvance_core {r t : TTRatchet} (h : r.core = t.core) :
    (sendAdvance C r).core = (sendAdvance C t).core := by
  simp only [TTRatchet.core, Prod.mk.injEq] at h ⊢
  simp only [sendAdvance, h, and_self]

theorem ratchetFold_core {r t : TTRatchet} (h : r.core = t.core) (dh kem : Key) :
    (ratchetFold C r dh kem).core = (ratchetFold C t dh kem).core := by
  simp only [TTRatchet.core, Prod.mk.injEq] at h ⊢
  simp only [ratchetFold, h, and_self]

def foldBy (C : Crypto) (r : TTRatchet) : Option (Key × Key) → TTRatchet
  | none => r
  | some (dh, kem) => ratchetFold C r dh kem

theorem foldBy_core {r t : TTRatchet} (h : r.core = t.core) (fold : Option (Key × Key)) :
    (foldBy C r fold).core = (foldBy C t fold).core := by
  cases fold with
  | none => exact h
  | some p => exact ratchetFold_core h p.1 p.2

structure Sent.On (C : Crypto) (m : Sent) (r : TTRatchet) : Prop where
  encoded : ∃ flags nonce, ttFrameEncode C ttFrameMax .data r.seq flags
    (chainMaterial C r.chain).1 nonce m.hdr m.text = some m.frame
  seq_lt : r.seq < 2 ^ 32
  text_le : m.text.length ≤ ttFrameDataMax
  after_core : m.after.core = (foldBy C (sendAdvance C r) m.fold).core
  header : (m.fold = none ∧ (m.hdr.length = 0 ∨ m.hdr.length = ttHdrDataKempub)) ∨
    ((∃ dh kem, m.fold = some (dh, kem)) ∧ m.hdr.length = ttHdrDataRekey)
  no_target : m.fold = none → m.target = none

theorem Sent.On.congr {m : Sent} {r t : TTRatchet} (h : m.On C r) (hc : r.core = t.core) :
    m.On C t := by
  obtain ⟨⟨flags, nonce, he⟩, hs, hl, ha, hh, ht⟩ := h
  have hfold := ha.trans (foldBy_core (sendAdvance_core hc) m.fold)
  simp only [TTRatchet.core, Prod.mk.injEq] at hc
  rw [hc.1, hc.2.1] at he
  exact ⟨⟨flags, nonce, he⟩, hc.2.1 ▸ hs, hl, hfold, hh, ht⟩

theorem Sent.On.fold_none {m : Sent} {r : TTRatchet} (h : m.On C r)
    (hl : m.hdr.length ≠ ttHdrDataRekey) : m.fold = none := by
  rcases h.header with ⟨hf, -⟩ | ⟨-, hh⟩
  · exact hf
  · exact absurd hh hl

theorem Sent.On.fold_some {m : Sent} {r : TTRatchet} (h : m.On C r)
    (hl : m.hdr.length = ttHdrDataRekey) : ∃ dh kem, m.fold = some (dh, kem) := by
  rcases h.header with ⟨-, hh⟩ | ⟨hf, -⟩
  · simp only [ttHdrDataRekey, ttHdrDataKempub] at hl hh
    omega
  · exact hf

def InFlight (C : Crypto) : TTRatchet → List Sent → TTRatchet → Prop
  | r, [], t => r.core = t.core
  | r, m :: q, t => m.On C r ∧ InFlight C m.after q t

namespace InFlight

theorem congr {q : List Sent} {r r' t : TTRatchet} (h : InFlight C r q t)
    (hc : r.core = r'.core) : InFlight C r' q t := by
  cases q with
  | nil => exact hc.symm.trans h
  | cons m q => exact ⟨h.1.congr hc, h.2⟩

theorem snoc {q : List Sent} {r t : TTRatchet} {m : Sent} (h : InFlight C r q t)
    (hm : m.On C t) : InFlight C r (q ++ [m]) m.after := by
  induction q generalizing r with
  | nil => exact ⟨hm.congr h.symm, rfl⟩
  | cons n q ih => exact ⟨h.1, ih h.2⟩

end InFlight

structure RekeyKeys (C : Crypto) (s : TTSession) : Prop where
  active : s.active = true
  reliable : s.lossy = false
  haveKem : s.rekey.haveKem = true
  eph : s.rekey.ephPk = C.scalarmultBase s.rekey.ephSk
  kem : ∃ seed, ttKemKeygen C seed = (s.rekey.kemPk, s.rekey.kemSk)
  seq_lt : s.send.seq < 2 ^ 32

def TTRekey.own (k : TTRekey) : KemPk × KemSk × Key × Key := (k.kemPk, k.kemSk, k.ephPk, k.ephSk)

def TTRekey.peer (k : TTRekey) : Bool × KemPk × Key := (k.peerHave, k.peerKemPk, k.peerEphPk)

theorem RekeyKeys.of_own {s' : TTSession} (h : RekeyKeys C s) (ha : s'.active = s.active)
    (hl : s'.lossy = s.lossy) (hk : s'.rekey.haveKem = s.rekey.haveKem)
    (ho : s'.rekey.own = s.rekey.own) (hs : s'.send.seq < 2 ^ 32) : RekeyKeys C s' := by
  simp only [TTRekey.own, Prod.mk.injEq] at ho
  obtain ⟨h1, h2, h3, h4⟩ := ho
  exact ⟨ha.trans h.active, hl.trans h.reliable, hk.trans h.haveKem, by rw [h3, h4, h.eph],
    by rw [h1, h2]; exact h.kem, hs⟩

inductive SentKind (C : Crypto) (k k' : TTRekey) (m : Sent) : Prop
  | plain (hdr : m.hdr = []) (fold : m.fold = none) (target : m.target = none)
      (peer : k'.peer = k.peer)
  | kempub (hdr : m.hdr = kempubHdr k) (fold : m.fold = none) (target : m.target = none)
      (peer : k'.peer = k.peer)
  | rekey (seed : Bytes) (dh : Key) (cached : k.peerHave = true)
      (shared : ttDhShared C k.ephSk k.peerEphPk = some dh)
      (hdr : m.hdr = (ttKemEnc C seed k.peerKemPk).1.bytes ++ k.ephPk.bytes)
      (fold : m.fold = some (dh, (ttKemEnc C seed k.peerKemPk).2))
      (target : m.target = some k.peerKemPk) (spent : k'.peerHave = false)

theorem autoRekey_frame (s : TTSession) : ∃ due, autoRekey s = { s.rekey with rekeyDue := due } := by
  unfold autoRekey
  split_ifs
  · exact ⟨true, rfl⟩
  · exact ⟨s.rekey.rekeyDue, rfl⟩

theorem selectHdr_kind {k : TTRekey} (hk : k.haveKem = true) (ρ : Draws) :
    (selectHdr C k ρ).rekey.own = k.own ∧ (selectHdr C k ρ).rekey.peer = k.peer ∧
      (selectHdr C k ρ).rekey.haveKem = true ∧
      (((selectHdr C k ρ).hdr = [] ∧ (selectHdr C k ρ).fold = none) ∨
        ((selectHdr C k ρ).hdr = kempubHdr k ∧ (selectHdr C k ρ).fold = none) ∨
        (k.peerHave = true ∧ ∃ dh, ttDhShared C k.ephSk k.peerEphPk = some dh ∧
          (selectHdr C k ρ).hdr = (ttKemEnc C ρ.encSeed k.peerKemPk).1.bytes ++ k.ephPk.bytes ∧
          (selectHdr C k ρ).fold = some (dh, (ttKemEnc C ρ.encSeed k.peerKemPk).2))) := by
  have he : ensureKem C k ρ = k := if_pos hk
  rcases selectHdr_cases C k ρ with ⟨-, h⟩ | ⟨-, -, -, -, h⟩ | ⟨-, -, hp, dh, hd, h⟩ |
    ⟨-, -, -, -, h⟩ | ⟨-, -, -, h⟩ | ⟨-, -, -, h⟩ <;> rw [h]
  · exact ⟨rfl, rfl, hk, Or.inr (Or.inl ⟨rfl, rfl⟩)⟩
  · exact ⟨rfl, rfl, hk, Or.inl ⟨rfl, rfl⟩⟩
  · exact ⟨rfl, rfl, hk, Or.inr (Or.inr ⟨hp, dh, hd, rfl, rfl⟩)⟩
  · rw [he]
    exact ⟨rfl, rfl, hk, Or.inr (Or.inl ⟨rfl, rfl⟩)⟩
  · exact ⟨rfl, rfl, hk, Or.inr (Or.inl ⟨rfl, rfl⟩)⟩
  · exact ⟨rfl, rfl, hk, Or.inl ⟨rfl, rfl⟩⟩

theorem emitHdr_kind (h : RekeyKeys C s) (ρ : Draws) :
    (emitHdr C s false ρ).rekey.own = s.rekey.own ∧
      (emitHdr C s false ρ).rekey.peer = s.rekey.peer ∧
      (emitHdr C s false ρ).rekey.haveKem = true ∧
      (((emitHdr C s false ρ).hdr = [] ∧ (emitHdr C s false ρ).fold = none) ∨
        ((emitHdr C s false ρ).hdr = kempubHdr s.rekey ∧ (emitHdr C s false ρ).fold = none) ∨
        (s.rekey.peerHave = true ∧ ∃ dh, ttDhShared C s.rekey.ephSk s.rekey.peerEphPk = some dh ∧
          (emitHdr C s false ρ).hdr =
            (ttKemEnc C ρ.encSeed s.rekey.peerKemPk).1.bytes ++ s.rekey.ephPk.bytes ∧
          (emitHdr C s false ρ).fold =
            some (dh, (ttKemEnc C ρ.encSeed s.rekey.peerKemPk).2))) := by
  obtain ⟨due, hd⟩ := autoRekey_frame s
  have he : emitHdr C s false ρ = selectHdr C { s.rekey with rekeyDue := due } ρ := by
    rw [emitHdr, if_pos (Or.inl h.reliable), hd]
  rw [he]
  exact selectHdr_kind (k := { s.rekey with rekeyDue := due }) h.haveKem ρ

theorem emitEncode_room (hC : C.AeadCorrect) (hroom : RekeyRoom C text) (s : TTSession)
    (ρ : Draws) : ∃ f, emitEncode C s (fun _ => text) ttFrameMax false ρ = some f := by
  obtain ⟨hr, hl, hg⟩ := (emitHdr_fits C s false ρ).geometry (C := C)
  refine ttFrameEncode_isSome hC _ _ _ hr hl ?_ hg
  rw [frameNonceLen_dataFlags]
  simp only [RekeyRoom, ttHdrDataKempub, ttMac16, ttFrameMax] at hroom
  have hh : (emitHdr C s false ρ).hdr.length ≤ 1190 := by
    rcases emitHdr_fits C s false ρ with ⟨h, -⟩ | ⟨h, -⟩ | ⟨h, -⟩ <;> rw [h] <;> decide
  simp only [min_self]
  omega

theorem RekeyRoom.le (hroom : RekeyRoom C text) : text.length ≤ ttFrameDataMax := by
  simp only [RekeyRoom, ttHdrDataKempub, ttMac16, ttFrameMax] at hroom
  change text.length ≤ 1319
  split_ifs at hroom <;> omega

structure SendSpec (C : Crypto) (s s' : TTSession) (m : Sent) : Prop where
  on : m.On C s.send
  after : m.after = s'.send
  keys : RekeyKeys C s'
  recv : s'.recv = s.recv
  own : s'.rekey.own = s.rekey.own
  kind : SentKind C s.rekey s'.rekey m

theorem ttSessionSend_spec (hC : C.AeadCorrect) (h : RekeyKeys C s) (hroom : RekeyRoom C text)
    (ρ : Draws) : ∃ m, sentBy C s text ρ = some m ∧ m.text = text ∧
      SendSpec C s (ttSessionSend C s text ttFrameMax ρ).1 m := by
  obtain ⟨f, hf⟩ := emitEncode_room hC hroom s ρ
  obtain ⟨rel, hdone⟩ : ∃ rel, emitDone C s (fun _ => text) false ρ f =
      finishFold C { emitDrawn C s false ρ with rel := rel } (emitHdr C s false ρ).fold :=
    ⟨_, emitDone_reliable h.reliable _ ρ f⟩
  have hsend : ttSessionSend C s text ttFrameMax ρ =
      (finishFold C { emitDrawn C s false ρ with rel := rel } (emitHdr C s false ρ).fold, .ok f) := by
    have hle : ¬ text.length > ttFrameDataMax := not_lt.mpr hroom.le
    have ha : ¬ s.active = false := by simp [h.active]
    rw [ttSessionSend, if_neg hle, if_neg ha, ← hdone]
    rcases emitFrame_cases C s (fun _ => text) ttFrameMax false ρ with
      ⟨hlos, -, -⟩ | ⟨-, hn, -⟩ | ⟨-, f', hf', he⟩
    · rw [h.reliable] at hlos
      cases hlos
    · rw [hf] at hn
      cases hn
    · rw [hf] at hf'
      cases hf'
      exact he
  obtain ⟨hown, hpeer, hhave, hkind⟩ := emitHdr_kind h ρ
  have hseq : (sendAdvance C s.send).seq < 2 ^ 32 := seqNext_lt _
  have hsent : sentBy C s text ρ = some ⟨f, text, (emitHdr C s false ρ).hdr,
      (emitHdr C s false ρ).fold, (emitHdr C s false ρ).fold.map fun _ => s.rekey.peerKemPk,
      (finishFold C { emitDrawn C s false ρ with rel := rel } (emitHdr C s false ρ).fold).send⟩ := by
    simp only [sentBy, hsend]
  refine ⟨_, hsent, rfl, ?_⟩
  rw [hsend]
  have hencode : ∃ flags nonce, ttFrameEncode C ttFrameMax .data s.send.seq flags
      (chainMaterial C s.send.chain).1 nonce (emitHdr C s false ρ).hdr text = some f := ⟨_, _, hf⟩
  cases hfold : (emitHdr C s false ρ).fold with
  | none =>
    rw [hfold] at hkind
    have hplain : (emitHdr C s false ρ).hdr = [] ∨
        (emitHdr C s false ρ).hdr = kempubHdr s.rekey := by
      rcases hkind with ⟨hh, -⟩ | ⟨hh, -⟩ | ⟨-, dh, -, -, hh⟩
      · exact Or.inl hh
      · exact Or.inr hh
      · cases hh
    constructor
    case on =>
      refine ⟨hencode, h.seq_lt, hroom.le, rfl, Or.inl ⟨rfl, ?_⟩, fun _ => rfl⟩
      rcases hplain with hh | hh
      · exact Or.inl (by rw [hh]; rfl)
      · exact Or.inr (by rw [hh]; exact kempubHdr_length _)
    case after => rfl
    case keys => exact h.of_own rfl rfl (hhave.trans h.haveKem.symm) hown hseq
    case recv => rfl
    case own => exact hown
    case kind =>
      rcases hplain with hh | hh
      · exact .plain hh rfl rfl hpeer
      · exact .kempub hh rfl rfl hpeer
  | some p =>
    obtain ⟨dh, kem⟩ := p
    rw [hfold] at hkind
    rcases hkind with ⟨-, hh⟩ | ⟨-, hh⟩ | ⟨hcached, dh', hshared, hh, hf'⟩
    · cases hh
    · cases hh
    cases hf'
    constructor
    case on =>
      refine ⟨hencode, h.seq_lt, hroom.le, rfl, Or.inr ⟨⟨_, _, rfl⟩, ?_⟩, by simp⟩
      rw [hh, List.length_append, Blob.bytes_length, Blob.bytes_length]
    case after => rfl
    case keys => exact h.of_own rfl rfl (hhave.trans h.haveKem.symm) hown hseq
    case recv => rfl
    case own => exact hown
    case kind => exact .rekey ρ.encSeed dh hcached hshared hh rfl rfl rfl

/-- The secrets of the fold are those the receiver computes from the header. -/
def Sent.Valid (C : Crypto) (m : Sent) (k : TTRekey) : Prop :=
  ∀ dh kem, m.fold = some (dh, kem) →
    ttDhShared C k.ephSk (dataEphPk m.hdr) = some dh ∧ ttKemDec C (dataKemCt m.hdr) k.kemSk = kem

inductive DeliveredKind (k k' : TTRekey) (m : Sent) : Prop
  | plain (hdr : m.hdr.length = 0) (own : k'.own = k.own) (peer : k'.peer = k.peer)
  | kempub (hdr : m.hdr.length = ttHdrDataKempub) (own : k'.own = k.own)
      (peer : k'.peer = k.peer ∨ k'.peer = (true, pubKemPk m.hdr, pubEphPk m.hdr))
  | rekey (hdr : m.hdr.length = ttHdrDataRekey)
      (peer : k'.peer = (k.peerHave, k.peerKemPk, dataEphPk m.hdr))

structure DeliverSpec (C : Crypto) (r r' : TTSession) (m : Sent) : Prop where
  core : r'.recv.core = m.after.core
  keys : RekeyKeys C r'
  send : r'.send = r.send
  kind : DeliveredKind r.rekey r'.rekey m

theorem ttSessionFeed_on (hC : C.AeadCorrect) (h : RekeyKeys C r) {m : Sent} (hm : m.On C r.recv)
    (env : TTE2EEEnv) (ρ : Draws) : ∃ rel, ttSessionFeed C r env ρ m.frame ttFrameDataMax =
      ⟨applyHdr C { r with lastIn := m.frame, recv := sendAdvance C r.recv, rel := rel } m.hdr ρ,
        .ok m.text, false⟩ := by
  obtain ⟨⟨flags, nonce, he⟩, hseq, hle, -, hh, -⟩ := hm
  have hpeek := ttFramePeek_encode hseq he
  have hdec := ttFrameDecode_encode hC _ hseq he hle
  have ha : ¬ r.active = false := by simp [h.active]
  have hlen : ¬ (m.hdr.length ≠ 0 ∧ m.hdr.length ≠ ttHdrDataRekey ∧
      m.hdr.length ≠ ttHdrDataKempub) := by
    rintro ⟨h0, h1, h2⟩
    rcases hh with ⟨-, hh | hh⟩ | ⟨-, hh⟩
    · exact h0 hh
    · exact h2 hh
    · exact h1 hh
  have hkey : recvKey C r.recv r.recv.seq = .ok ((chainMaterial C r.recv.chain).1, none) := by
    rw [recvKey, if_pos rfl, msgKeyAt_self]
  obtain ⟨rel, hrel⟩ := ackMark_frame { r with lastIn := m.frame, recv := sendAdvance C r.recv }
  refine ⟨rel, ?_⟩
  simp only [ttSessionFeed, hpeek, feedData, if_neg ha, if_neg hlen, hkey, hdec, Option.getD_none,
    recvCommit_self, hrel]

theorem ttSessionFeed_spec (hC : C.AeadCorrect) (h : RekeyKeys C r) {m : Sent}
    (hm : m.On C r.recv) (hv : m.Valid C r.rekey) (env : TTE2EEEnv) (ρ : Draws) :
    (ttSessionFeed C r env ρ m.frame ttFrameDataMax).ret = .ok m.text ∧
      DeliverSpec C r (ttSessionFeed C r env ρ m.frame ttFrameDataMax).session m := by
  obtain ⟨rel, hf⟩ := ttSessionFeed_on hC h hm env ρ
  rw [hf]
  refine ⟨rfl, ?_⟩
  by_cases h1 : m.hdr.length = ttHdrDataRekey
  · obtain ⟨dh, kem, hfold⟩ := hm.fold_some h1
    obtain ⟨hdh, hkem⟩ := hv dh kem hfold
    have hafter := hm.after_core
    rw [hfold] at hafter
    rw [applyHdr, if_pos h1, applyRekey]
    simp only [hdh, hkem]
    constructor
    case core => exact hafter.symm
    case keys => exact ⟨h.active, h.reliable, rfl, rfl, ⟨ρ.kemSeed, rfl⟩, h.seq_lt⟩
    case send => rfl
    case kind => exact .rekey h1 rfl
  have hafter := hm.after_core
  rw [hm.fold_none h1] at hafter
  rw [applyHdr, if_neg h1]
  by_cases h2 : m.hdr.length = ttHdrDataKempub
  · rw [if_pos h2, applyKempub]
    dsimp only
    cases ttDhShared C r.rekey.ephSk (pubEphPk m.hdr) with
    | none =>
      exact ⟨hafter.symm, h.of_own rfl rfl rfl rfl h.seq_lt, rfl, .kempub h2 rfl (Or.inl rfl)⟩
    | some z =>
      dsimp only
      split_ifs <;> exact ⟨hafter.symm, h.of_own rfl rfl rfl rfl h.seq_lt, rfl,
        .kempub h2 rfl (Or.inr rfl)⟩
  · rw [if_neg h2]
    refine ⟨hafter.symm, h.of_own rfl rfl rfl rfl h.seq_lt, rfl, .plain ?_ rfl rfl⟩
    rcases hm.header with ⟨-, hh | hh⟩ | ⟨-, hh⟩
    · exact hh
    · exact absurd hh h2
    · exact absurd hh h1

end TkTox
