import TkTox.RelInvariant

/-!
Handshake calls and deliveries at one side of the reliable transport.
-/

namespace TkTox

variable {C : Crypto} {s s' : TTSession} {net : List RelFrame} {log : List Tagged}
  {roots : List Key} {ρ : Draws} {env : TTE2EEEnv} {f : Bytes} {d : TTFrameDesc}

theorem Quiet.refl (s : TTSession) : Quiet s s :=
  ⟨rfl, rfl, rfl, Or.inl rfl, Or.inr ⟨rfl, rfl, rfl, rfl⟩⟩

theorem Quiet.reestablishPreserve (s : TTSession) : Quiet s (reestablishPreserve s) :=
  ⟨rfl, rfl, rfl, Or.inr rfl, Or.inl ⟨rfl, rfl⟩⟩

theorem Quiet.initTarget (s : TTSession) : Quiet s (initTarget s) := by
  unfold TkTox.initTarget
  split_ifs
  · exact .reestablishPreserve s
  · exact .refl s

structure Establishes (C : Crypto) (s s' : TTSession) : Prop where
  active : s'.active = true
  ratchets : ∃ b, s'.send = ratchetReset C s'.root b ∧ s'.recv = ratchetReset C s'.root !b
  lossy : s'.lossy = s.lossy
  sent : s'.rel.sent = s.rel.sent
  mark : s'.rel.recvAcked = s.rel.recvAcked
  cache : s'.replyCache = s.replyCache ∨ s'.replyCache = []

theorem acceptedInit_establishes (hq : Quiet s s') (peerPk : Key) (ρ : Draws) (key : Key)
    (hdr : Bytes) (l : Key × Key × Key) :
    Establishes C s (acceptedInit C s' env peerPk ρ key hdr l) :=
  ⟨rfl, ⟨false, rfl, rfl⟩, hq.lossy, hq.sent, hq.mark, hq.cache⟩

theorem acceptedReply_establishes (s : TTSession) (peerPk : Key) (ρ : Draws) (hdr : Bytes)
    (l : Key × Key × Key) : Establishes C s (acceptedReply C s env peerPk ρ hdr l) :=
  ⟨rfl, ⟨true, rfl, rfl⟩, rfl, rfl, rfl, Or.inl rfl⟩

theorem ttSessionFeed_handshake (hw : RelFrame.WellFormed C (.handshake f)) (s : TTSession)
    (env : TTE2EEEnv) (ρ : Draws) (cap : ℕ) :
    (establishesOn C s env ρ f cap = true ∧
        Establishes C s (ttSessionFeed C s env ρ f cap).session) ∨
      (establishesOn C s env ρ f cap = false ∧ Quiet s (ttSessionFeed C s env ρ f cap).session) := by
  rcases ttSessionFeed_dispatch (C := C) s env ρ f cap with
    hf | ⟨d, hp, ⟨ht, hf⟩ | ⟨ht, hf⟩ | ⟨type, ht, htype, hf⟩ | ⟨ht, last, hf⟩⟩
  · refine Or.inr ⟨?_, ?_⟩
    · rw [establishesOn, hf]
      rfl
    · rw [hf]
      exact .refl s
  · have hret : initRetransmit C s env f =
        (s.active && !s.iAmInitiator && initOpens C env f d) := by
      simp [initRetransmit, hp, ht]
    by_cases hr : initReachesOpen C s env f d
    · rw [establishesOn, hret, hr.2.2.2, Bool.not_false, Bool.and_true, hf]
      rcases feedInit_fresh (ρ := ρ) hr with hi | hi
      · rw [hi]
        exact Or.inr ⟨rfl, .refl s⟩
      · rw [hi]
        have hq := Quiet.initTarget s
        rcases acceptInit_cases C (initTarget s) env ρ (hdrIk d.hdr) hp with ⟨-, e, h⟩ | ⟨-, -, key, h⟩ | ⟨-, key, l, -, h⟩ <;> rw [h]
        · exact Or.inr ⟨rfl, hq⟩
        · exact Or.inr ⟨rfl, hq.lossy, hq.sent, hq.mark, hq.cache, hq.live⟩
        · exact Or.inl ⟨rfl, acceptedInit_establishes hq _ ρ key d.hdr l⟩
    · obtain ⟨hs, hh⟩ := feedInit_early (ρ := ρ) ht hr
      rw [establishesOn, hret, hf]
      refine Or.inr ⟨?_, by rw [hs]; exact .refl s⟩
      cases hb : (feedInit C s env ρ f d).handshaked with
      | false => rfl
      | true =>
        obtain ⟨h1, h2, h3⟩ := hh hb
        simp [h1, h2, h3]
  · have hret : initRetransmit C s env f = false := by simp [initRetransmit, hp, ht]
    rw [establishesOn, hret, Bool.not_false, Bool.and_true, hf]
    rcases feedReply_cases C s env ρ hp with
      ⟨r, h⟩ | ⟨-, -, -, -, l, -, h⟩ <;> rw [h]
    · exact Or.inr ⟨rfl, .refl s⟩
    · exact Or.inl ⟨rfl, acceptedReply_establishes s _ ρ d.hdr l⟩
  · rcases hw d hp with h | h <;> rw [h] at ht <;> cases ht <;> simp at htype
  · rcases hw d hp with h | h <;> rw [h] at ht <;> simp at ht

theorem handshake_wellFormed {cap : ℕ} {type : TTFrameType} (ht : type = .init ∨ type = .reply)
    {flags : UInt8} {key : Key} {nonce : Nonce} {hdr pt : Bytes}
    (h : ttFrameEncode C cap type 0 flags key nonce hdr pt = some f) :
    RelFrame.WellFormed C (.handshake f) := by
  intro d hd
  rw [ttFramePeek_encode (by decide) h] at hd
  cases hd
  rcases ht with rfl | rfl
  · exact Or.inl rfl
  · exact Or.inr rfl

theorem empty_wellFormed : RelFrame.WellFormed C (.handshake []) := by
  intro d hd
  cases hd

namespace TransportInv

theorem handshakeOut (h : TransportInv C s net log roots) {r : Except TTE2EEStatus Bytes}
    (hw : RelFrame.WellFormed C (.handshake (okBytes r))) :
    TransportInv C s (net ++ handshakeOut r) log roots := by
  unfold TkTox.handshakeOut
  split_ifs
  · rw [List.append_nil]
    exact h
  · exact h.push hw rfl (by simp)

theorem start (h : TransportInv C s net log roots) (env : TTE2EEEnv) (ρ : Draws) (now : ℤ) :
    TransportInv C (ttSessionStart C s env ρ now ttFrameMax).1
      (net ++ TkTox.handshakeOut (ttSessionStart C s env ρ now ttFrameMax).2) log roots := by
  have hdone : Quiet s (ttSessionStart C s env ρ now ttFrameMax).1 ∧
      RelFrame.WellFormed C (.handshake
        (okBytes (ttSessionStart C s env ρ now ttFrameMax).2)) := by
    unfold ttSessionStart
    cases env.peerPk with
    | none => exact ⟨.refl s, empty_wellFormed⟩
    | some peerPk =>
      dsimp only
      split
      · exact ⟨⟨rfl, rfl, rfl, Or.inr rfl, Or.inl ⟨rfl, rfl⟩⟩, empty_wellFormed⟩
      split
      · exact ⟨⟨rfl, rfl, rfl, Or.inr rfl, Or.inl ⟨rfl, rfl⟩⟩, empty_wellFormed⟩
      · rename_i f hf
        exact ⟨⟨rfl, rfl, rfl, Or.inr rfl, Or.inl ⟨rfl, rfl⟩⟩,
          handshake_wellFormed (Or.inl rfl) hf⟩
  exact (h.quiet hdone.1).handshakeOut hdone.2

theorem reply (h : TransportInv C s net log roots) (env : TTE2EEEnv) (ρ : Draws) :
    TransportInv C (ttSessionReply C s env ρ ttFrameMax).1
      (net ++ TkTox.handshakeOut (ttSessionReply C s env ρ ttFrameMax).2) log roots := by
  unfold ttSessionReply
  cases env.peerPk with
  | none => exact h.handshakeOut empty_wellFormed
  | some peerPk =>
    dsimp only
    split_ifs
    · exact h.handshakeOut empty_wellFormed
    · exact h.handshakeOut h.cache
    have hdue : TransportInv C { s with replyDue := false } net log roots := { h with }
    cases sealKeyDerive C s.ephB1Sk peerPk peerPk with
    | none => exact hdue.handshakeOut empty_wellFormed
    | some key =>
      dsimp only
      split
      · exact hdue.handshakeOut empty_wellFormed
      · rename_i f hf
        have hw : RelFrame.WellFormed C (.handshake f) := handshake_wellFormed (Or.inr rfl) hf
        have hcache : TransportInv C { s with replyDue := false, replyCache := f } net log roots :=
          { h with cache := hw }
        exact hcache.handshakeOut hw

theorem tick (h : TransportInv C s net log roots) (env : TTE2EEEnv) (ρ : Draws) (now : ℤ) :
    TransportInv C (ttSessionTick C s env ρ now ttFrameMax).1
      (net ++ TkTox.handshakeOut (ttSessionTick C s env ρ now ttFrameMax).2) log roots := by
  unfold ttSessionTick
  split_ifs
  · exact h.handshakeOut empty_wellFormed
  · have hat : TransportInv C { s with initAt := now } net log roots := { h with }
    refine hat.handshakeOut ?_
    dsimp only
    cases hb : buildInit C { s with initAt := now } env ρ ttFrameMax with
    | none => exact empty_wellFormed
    | some f => exact handshake_wellFormed (Or.inl rfl) hb

theorem send (h : TransportInv C s net log roots) (hs : s.send.seq + 1 < 2 ^ 32) (text : Bytes)
    (ρ : Draws) : TransportInv C (ttSessionSend C s text ttFrameMax ρ).1
      (net ++ dataOut C s text (ttSessionSend C s text ttFrameMax ρ).2) log roots := by
  unfold ttSessionSend
  split_ifs with h1 h2 h3 h4
  · rw [append_dataOut_empty _ _ _ rfl]
    exact h
  · rw [append_dataOut_empty _ _ _ rfl]
    exact h
  · rw [append_dataOut_empty _ _ _ rfl]
    exact { h with }
  · rw [append_dataOut_empty _ _ _ rfl]
    exact h
  · exact h.emitFrame (by simpa using h2) hs (fun _ => text) ρ

theorem flush (h : TransportInv C s net log roots) (hs : s.send.seq + 1 < 2 ^ 32) (ρ : Draws) :
    TransportInv C (ttSessionFlush C s ttFrameMax ρ).1
      (net ++ dataOut C s (s.pending.headD []) (ttSessionFlush C s ttFrameMax ρ).2) log roots := by
  unfold ttSessionFlush
  split
  · rename_i text rest ha hp
    have he := h.emitFrame ha hs (fun _ => text) ρ
    rw [hp]
    dsimp only [List.headD_cons]
    split
    · rename_i s' b f heq
      rw [heq] at he
      exact { he with }
    · rename_i s' r heq
      rw [heq] at he
      exact he
  · rw [append_dataOut_empty _ _ _ rfl]
    exact h

theorem rekeyDue (h : TransportInv C s net log roots) :
    TransportInv C (ttSessionRekeyDue s) net log roots := by
  unfold ttSessionRekeyDue
  split_ifs
  · exact { h with }
  · exact h

theorem establish (h : TransportInv C s net log roots) (he : Establishes C s s')
    (hr : s'.root ∉ roots) : TransportInv C s' net log (s'.root :: roots) := by
  obtain ⟨b, hsend, hrecv⟩ := he.ratchets
  constructor
  case reliable => rw [he.lossy]; exact h.reliable
  case ring => rw [hrecv]; exact Nat.zero_le _
  case count => rw [he.sent]; exact h.count
  case mark => rw [he.mark]; exact h.mark
  case cache =>
    rcases he.cache with hc | hc <;> rw [hc]
    · exact h.cache
    · exact empty_wellFormed
  case buffered => rw [he.sent]; exact h.buffered
  case tag =>
    intro t ht
    obtain ⟨h1, h2⟩ := h.tag t ht
    exact ⟨List.mem_cons_of_mem _ h1, h2⟩
  case unique => exact h.unique
  case live =>
    intro _
    rw [hsend]
    refine ⟨List.mem_cons_self, le_rfl, fun t ht htr => ?_⟩
    exact absurd (htr ▸ (h.tag t ht).1) hr
  case covered =>
    intro _
    rw [hrecv]
    exact Covered.reset _
  case frames => exact h.frames
  case acks =>
    intro f root a g hm
    obtain ⟨h1, h2⟩ := h.acks f root a g hm
    exact ⟨List.mem_cons_of_mem _ h1, h2⟩

theorem mono (h : TransportInv C s net log roots) {log' : List Tagged}
    (hl : ∀ t ∈ log, t ∈ log') : TransportInv C s net log' roots := by
  refine { h with covered := fun ha => (h.covered ha).mono hl, acks := fun f root a g hm => ?_ }
  obtain ⟨h1, h2, h3, h4⟩ := h.acks f root a g hm
  refine ⟨h1, h2, h3, fun n hn hna => ?_⟩
  obtain ⟨text, ht⟩ := h4 n hn hna
  exact ⟨text, hl _ ht⟩

theorem received (h : TransportInv C s net log roots) (hl : s'.lossy = s.lossy)
    (hsent : s'.rel.sent = s.rel.sent) (hmark : s'.rel.recvAcked < 2 ^ 32)
    (hcache : s'.replyCache = s.replyCache) (ha : s'.active = s.active) (hroot : s'.root = s.root)
    (hsend : s'.send = s.send) (hring : s'.recv.skipped.length ≤ ttSessionSkippedMax)
    (hc : s.active = true → Covered s.root s'.recv log) : TransportInv C s' net log roots := by
  constructor
  case reliable => rw [hl]; exact h.reliable
  case ring => exact hring
  case count => rw [hsent]; exact h.count
  case mark => exact hmark
  case cache => rw [hcache]; exact h.cache
  case buffered => rw [hsent]; exact h.buffered
  case tag => exact h.tag
  case unique => exact h.unique
  case live => rw [ha, hroot, hsend]; exact h.live
  case covered => rw [ha, hroot]; exact hc
  case frames => exact h.frames
  case acks => exact h.acks

end TransportInv

def RingKept (r : TTRatchet) (d : TTFrameDesc) : Prop :=
  r.skipped.length + (d.seq - r.seq) ≤ ttSessionSkippedMax ∧
  (d.hdr.length = ttHdrDataRekey →
    (d.seq < r.seq ∧ d.seq ∉ r.skipped.map Prod.fst) ∨
    (d.seq ≤ r.seq ∧ ∀ e ∈ r.skipped, e.1 = d.seq))

instance (r : TTRatchet) (d : TTFrameDesc) : Decidable (RingKept r d) :=
  inferInstanceAs (Decidable (_ ∧ _))

theorem ackMark_marks (h : s.rel.recvAcked < 2 ^ 32) : ∃ mark due, mark < 2 ^ 32 ∧
    ackMark s = { s with rel := { s.rel with recvAcked := mark, ackDue := due } } := by
  have hlt (n : ℕ) : n % 2 ^ 32 < 2 ^ 32 := Nat.mod_lt _ (Nat.two_pow_pos 32)
  unfold ackMark
  dsimp only
  split_ifs
  · exact ⟨_, true, hlt _, rfl⟩
  · exact ⟨s.rel.recvAcked, s.rel.ackDue, h, rfl⟩

theorem applyHdr_recv_of_ne {hdr : Bytes} (h : hdr.length ≠ ttHdrDataRekey) (ρ : Draws) :
    (applyHdr C s hdr ρ).recv = s.recv := by
  rw [applyHdr, if_neg h]
  unfold applyKempub
  split_ifs
  · split <;> rfl
  · rfl

theorem applyHdr_recv_rekey {hdr : Bytes} (h : hdr.length = ttHdrDataRekey) (ρ : Draws) :
    (applyHdr C s hdr ρ).recv = s.recv ∨
      ∃ dh kem, (applyHdr C s hdr ρ).recv = ratchetFold C s.recv dh kem := by
  rw [applyHdr, if_pos h]
  unfold applyRekey
  dsimp only
  split
  · exact Or.inl rfl
  · exact Or.inr ⟨_, _, rfl⟩

theorem Covered.opened {root : Key} {r : TTRatchet} {taken : Option TTRatchet} {key : Key}
    (h : Covered root r log) (hring : r.skipped.length ≤ ttSessionSkippedMax)
    (hlt : d.seq < 2 ^ 32) (hk : recvKey C r d.seq = .ok (key, taken)) (hkept : RingKept r d)
    (text : Bytes) :
    Covered root (taken.getD (recvCommit C r d.seq)) (⟨root, d.seq, text⟩ :: log) ∧
      (taken.getD (recvCommit C r d.seq)).skipped.length ≤ ttSessionSkippedMax ∧
      (d.hdr.length = ttHdrDataRekey →
        ∀ n ∈ (taken.getD (recvCommit C r d.seq)).skipped.map Prod.fst, n = d.seq) := by
  rcases recvKey_cases hk with ⟨rfl, hle, -, -⟩ | ⟨r', rfl, hlt', ht⟩
  · obtain ⟨hc, hl⟩ := h.commit (C := C) hle hlt hkept.1 text
    refine ⟨hc, hl, fun hh n hn => ?_⟩
    rcases hkept.2 hh with ⟨hne, -⟩ | ⟨hge, hall⟩
    · omega
    · have heq : d.seq = r.seq := le_antisymm hge hle
      rw [Option.getD_none, heq, recvCommit_self, sendAdvance_skipped] at hn
      obtain ⟨e, he, rfl⟩ := List.mem_map.mp hn
      exact hall e he
  · obtain ⟨hmem, -, hlen, -, hsub⟩ := Covered.skippedTake_spec ht
    refine ⟨h.take ht text, by rw [Option.getD_some]; omega, fun hh n hn => ?_⟩
    rcases hkept.2 hh with ⟨-, hne⟩ | ⟨-, hall⟩
    · exact absurd hmem hne
    · obtain ⟨e, he, rfl⟩ := List.mem_map.mp hn
      exact hall e (hsub e he)

theorem TransportInv.data (h : TransportInv C s net log roots)
    (hlt : d.seq < 2 ^ 32) {key : Key} {taken : Option TTRatchet} (ha : s.active = true)
    (hk : recvKey C s.recv d.seq = .ok (key, taken)) (hkept : RingKept s.recv d) (pt : Bytes)
    (ρ : Draws) : TransportInv C (acceptedData C s ρ d taken) net (⟨s.root, d.seq, pt⟩ :: log)
      roots := by
  obtain ⟨hc, hl, hfold⟩ := (h.covered ha).opened h.ring hlt hk hkept pt
  obtain ⟨mark, due, hlt', hmark⟩ := ackMark_marks
    (s := { s with recv := taken.getD (recvCommit C s.recv d.seq) }) h.mark
  unfold acceptedData
  rw [hmark]
  obtain ⟨recv, rekey, happ⟩ := applyHdr_frame (C := C)
    { s with
      recv := taken.getD (recvCommit C s.recv d.seq)
      rel := { s.rel with recvAcked := mark, ackDue := due } } d.hdr ρ
  have hrecv : recv = (applyHdr C { s with
      recv := taken.getD (recvCommit C s.recv d.seq)
      rel := { s.rel with recvAcked := mark, ackDue := due } } d.hdr ρ).recv := by rw [happ]
  rw [happ]
  have hm := h.mono fun t (ht : t ∈ log) => List.mem_cons_of_mem (⟨s.root, d.seq, pt⟩ : Tagged) ht
  refine hm.received rfl rfl hlt' rfl rfl rfl rfl ?_ fun _ => ?_
  · change recv.skipped.length ≤ _
    rw [hrecv]
    by_cases hr : d.hdr.length = ttHdrDataRekey
    · rcases applyHdr_recv_rekey (C := C) (s := { s with
        recv := taken.getD (recvCommit C s.recv d.seq)
        rel := { s.rel with recvAcked := mark, ackDue := due } }) hr ρ with h1 | ⟨dh, kem, h1⟩
      · rw [h1]
        exact hl
      · rw [h1]
        exact Nat.zero_le _
    · rw [applyHdr_recv_of_ne hr]
      exact hl
  · change Covered s.root recv _
    rw [hrecv]
    by_cases hr : d.hdr.length = ttHdrDataRekey
    · rcases applyHdr_recv_rekey (C := C) (s := { s with
        recv := taken.getD (recvCommit C s.recv d.seq)
        rel := { s.rel with recvAcked := mark, ackDue := due } }) hr ρ with h1 | ⟨dh, kem, h1⟩
      · rw [h1]
        exact hc
      · rw [h1]
        refine hc.fold (fun n hn => ?_) dh kem
        rw [hfold hr n hn]
        exact ⟨pt, List.mem_cons_self⟩
    · rw [applyHdr_recv_of_ne hr]
      exact hc

theorem TransportInv.rejected (h : TransportInv C s net log roots) {key : Key} {seq : ℕ}
    {taken : Option TTRatchet} (hk : recvKey C s.recv seq = .ok (key, taken)) :
    TransportInv C (dataReject C s seq key taken) net log roots := by
  rcases recvKey_cases hk with ⟨rfl, -, -, -⟩ | ⟨r', rfl, -, ht⟩
  · unfold dataReject
    dsimp only
    split_ifs <;> exact { h with }
  · have hrecv : TransportInv C { s with recv := skippedAdd r' seq key } net log roots := by
      refine h.received rfl rfl h.mark rfl rfl rfl rfl ?_ fun ha => ?_
      · obtain ⟨-, -, hlen, -, -⟩ := Covered.skippedTake_spec ht
        have hr := h.ring
        simp only [skippedAdd]
        rw [if_neg (by omega)]
        simp only [List.length_append, List.length_singleton]
        omega
      · exact ((h.covered ha).restore ht h.ring).1
    unfold dataReject
    dsimp only
    split_ifs <;> exact { hrecv with }

theorem feedData_sent (h : s.rel.recvAcked < 2 ^ 32) (hp : ttFramePeek f = some d) (ρ : Draws)
    (cap : ℕ) : (feedData C s ρ f d cap).session.rel.sent = s.rel.sent := by
  rcases feedData_cases (C := C) (s := s) (ρ := ρ) cap hp with
    ⟨e, hr⟩ | ⟨-, key, taken, -, -, hr⟩ | ⟨-, key, taken, pt, -, -, hr⟩ <;> rw [hr]
  · unfold dataReject
    cases taken <;> dsimp only <;> split_ifs <;> rfl
  · obtain ⟨mark, due, -, hm⟩ := ackMark_marks
      (s := { s with recv := taken.getD (recvCommit C s.recv d.seq) }) h
    obtain ⟨recv, rekey, ha⟩ := applyHdr_frame (C := C)
      (ackMark { s with recv := taken.getD (recvCommit C s.recv d.seq) }) d.hdr ρ
    change (acceptedData C s ρ d taken).rel.sent = s.rel.sent
    rw [acceptedData, ha, hm]

end TkTox
