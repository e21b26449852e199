import TkTox.HandshakeRoot

/-!
Simultaneous INITs. Two friends start, retransmit and answer over queues that keep order and
lose nothing; `Phase` lists the five shapes the pair goes through.
-/

namespace TkTox

variable {C : Crypto} {s t : TTSession} {ea eb : TTE2EEEnv} {ρ σ : Draws} {f : Bytes}

def receive (C : Crypto) (s : TTSession) (env : TTE2EEEnv) (ρ σ : Draws) (f : Bytes) :
    TTSession × Bytes :=
  let r := ttSessionFeed C s env ρ f ttFrameDataMax
  if r.session.replyDue then
    let q := ttSessionReply C r.session env σ ttFrameMax
    (q.1, okBytes q.2)
  else (r.session, [])

structure IdleSession (s : TTSession) : Prop where
  active : s.active = false
  role : s.iAmInitiator = false
  initPending : s.initPending = false
  replyDue : s.replyDue = false

structure PendingSession (C : Crypto) (s : TTSession) (peerPk : Key) : Prop where
  active : s.active = false
  role : s.iAmInitiator = true
  initPending : s.initPending = true
  replyDue : s.replyDue = false
  keys : PendingKeys C s peerPk

structure Answered (C : Crypto) (ea eb : TTE2EEEnv) (s t : TTSession) (reply : Bytes) : Prop where
  root : ∃ ρ₀ l, dhLegs C ρ₀.eph1 ea.selfPk eb.selfSk s.ephA2Pk ρ₀.eph2 s.ephA3Pk = some l ∧
    ReplyKeys C t ρ₀ s.kemPk ∧
    Established C t (handshakeRoot C l.1 l.2.1 l.2.2 (ttKemEnc C ρ₀.encSeed s.kemPk).2
      ea.selfPk eb.selfPk) false
  replyDue : t.replyDue = false
  isReply : IsReply C t ea eb reply

section Receive

variable (hC : C.AeadCorrect) (hD : C.DhCommutes) (hF : Friends C ea eb)
  (hs : PendingKeys C s eb.selfPk) (hf : IsInit C s ea f)

include hC hD hF hs hf

theorem receive_fresh (hret : t.active = false ∨ t.iAmInitiator = true)
    (hy : (t.iAmInitiator && (t.active || t.initPending)) = true →
      t.active = true ∨ ea.selfPk.bytes < eb.selfPk.bytes) :
    Answered C ea eb s (receive C t eb ρ σ f).1 (receive C t eb ρ σ f).2 ∧
      (receive C t eb ρ σ f).1.pending = t.pending := by
  obtain ⟨d, hd, ht, hh, -⟩ := hf.peek
  have hopen : initReachesOpen C t eb f d := by
    refine ⟨ht, ?_, ?_, ?_⟩
    · rw [hh, handshakeHdr_length, Blob.bytes_length]
    · rw [hh, hdrIk_handshakeHdr, hF.peerPk_right]
    · rcases hret with h | h <;> simp [h]
  obtain ⟨key, l, hl, hacc⟩ := acceptInit_isInit hC hD hF hs hf hd (initTarget t) ρ
  have hfeed : ttSessionFeed C t eb ρ f ttFrameDataMax =
      ⟨acceptedInit C (initTarget t) eb ea.selfPk ρ key d.hdr l, .ok [], true⟩ := by
    simp only [ttSessionFeed, hd, ht]
    rw [feedInit_reaches hopen, hh, hdrIk_handshakeHdr, ← hh, ← hacc, initTarget]
    by_cases hi : (t.iAmInitiator && (t.active || t.initPending)) = true
    · have hyield : yieldsTo t eb d = true := by
        rw [yieldsTo, hh, handshakeHdr_take]
        rcases hy hi with h | h <;> simp [h]
      simp only [if_pos hi, if_pos hyield]
    · simp only [if_neg hi]
  have htarget : (initTarget t).pending = t.pending := by
    unfold initTarget
    split_ifs <;> rfl
  obtain ⟨g, hg, hreply⟩ := ttSessionReply_spec hC hD hF
    (t := acceptedInit C (initTarget t) eb ea.selfPk ρ key d.hdr l) rfl σ ttFrameMax le_rfl
  have hrecv : receive C t eb ρ σ f =
      ({ acceptedInit C (initTarget t) eb ea.selfPk ρ key d.hdr l with
          replyDue := false, replyCache := g }, g) := by
    simp only [receive, hfeed, hg, okBytes]
    exact if_pos rfl
  rw [hrecv]
  have hkem : hdrKemPk d.hdr = s.kemPk := by rw [hh, hdrKemPk_handshakeHdr]
  have hkeys := acceptedInit_replyKeys (C := C) (initTarget t) eb ea.selfPk ρ key d.hdr l
  have hest := acceptedInit_established (C := C) (initTarget t) eb ea.selfPk ρ key d.hdr l
  rw [hkem] at hkeys hest
  refine ⟨⟨⟨ρ, l, hl, ?_, ?_⟩, rfl, hreply⟩, htarget⟩
  · exact ⟨hkeys.b1Sk, hkeys.b1Pk, hkeys.b3Pk, hkeys.kemCt⟩
  · exact ⟨hest.active, hest.role, hest.notPending, hest.root_eq, hest.send_eq, hest.recv_eq⟩

omit hC hD hs in
theorem receive_ignored {p : Key} (ht : PendingSession C t p)
    (hlow : ¬ ea.selfPk.bytes < eb.selfPk.bytes) : receive C t eb ρ σ f = (t, []) := by
  obtain ⟨d, hd, htype, hh, -⟩ := hf.peek
  have hopen : initReachesOpen C t eb f d := by
    refine ⟨htype, ?_, ?_, ?_⟩
    · rw [hh, handshakeHdr_length, Blob.bytes_length]
    · rw [hh, hdrIk_handshakeHdr, hF.peerPk_right]
    · simp [ht.active]
  have hfeed : ttSessionFeed C t eb ρ f ttFrameDataMax = ⟨t, .ok [], false⟩ := by
    simp only [ttSessionFeed, hd, htype]
    have hyield : yieldsTo t eb d = false := by
      rw [yieldsTo, hh, handshakeHdr_take]
      simp [ht.active, hlow]
    rw [feedInit_reaches hopen, if_pos (by simp [ht.role, ht.initPending]), hyield]
    rfl
  rw [receive, hfeed]
  simp [ht.replyDue]

theorem receive_repeated {root : Key} (ht : Established C t root false)
    (hdue : t.replyDue = false) : receive C t eb ρ σ f = (t, []) := by
  obtain ⟨d, hd, htype, hh, -⟩ := hf.peek
  have ho := hf.initOpens hC hD hF hs hd
  have hfeed : ttSessionFeed C t eb ρ f ttFrameDataMax = ⟨t, .ok [], true⟩ := by
    have hlen : d.hdr.length = ttHdrInit := by rw [hh, handshakeHdr_length, Blob.bytes_length]
    have hik : hdrIk d.hdr = ea.selfPk := by rw [hh, hdrIk_handshakeHdr]
    simp only [ttSessionFeed, hd, htype, feedInit, hlen, hF.peerPk_right, hik, ne_eq,
      not_true_eq_false, ↓reduceIte, ht.active, ht.role, ho, Bool.not_false, Bool.and_self]
  rw [receive, hfeed]
  simp [hdue]

end Receive

theorem receive_reply (hC : C.AeadCorrect) (hD : C.DhCommutes) (hK : C.KemCorrect)
    (hF : Friends C ea eb) (hs : PendingSession C s eb.selfPk) (ht : Answered C ea eb s t f) :
    ∃ root, Established C t root false ∧ Established C (receive C s ea ρ σ f).1 root true ∧
      (receive C s ea ρ σ f).1.replyDue = false ∧ (receive C s ea ρ σ f).2 = [] ∧
      (receive C s ea ρ σ f).1.pending = s.pending := by
  obtain ⟨ρ₀, l, hl, hkeys, hest⟩ := ht.root
  obtain ⟨d, hd, htype, hh⟩ := ht.isReply.peek
  obtain ⟨l', hl', hfeed, hkem⟩ := feedReply_isReply hC hD hK hF hs.keys hs.initPending hs.active
    hkeys ht.isReply hd ρ
  rw [hl] at hl'
  cases hl'
  have hrecv : receive C s ea ρ σ f = (acceptedReply C s ea eb.selfPk ρ d.hdr l, []) := by
    simp only [receive, ttSessionFeed, hd, htype, hfeed]
    exact if_neg (by simp [acceptedReply, establish, hs.replyDue])
  have hacc := acceptedReply_established (C := C) s ea eb.selfPk ρ d.hdr l
  rw [hkem] at hacc
  rw [hrecv]
  exact ⟨_, hest, hacc, hs.replyDue, rfl, rfl⟩

/-- The two sessions, the frames each side has in flight, oldest first, whether a start was
made, and the texts stashed so far. -/
structure Peers where
  sess : Bool → TTSession
  wire : Bool → List Bytes
  started : Bool
  stash : Bool → List Bytes

def Peers.send (w : Peers) (i : Bool) (s : TTSession) (out : Bytes) : Peers :=
  { w with
    sess := Function.update w.sess i s
    wire := Function.update w.wire i (w.wire i ++ if out = [] then [] else [out]) }

section Send

variable {w : Peers} {i : Bool} {out : Bytes}

@[simp] theorem Peers.send_sess_self : (w.send i s out).sess i = s := by simp [Peers.send]

@[simp] theorem Peers.send_sess_not : (w.send i s out).sess (!i) = w.sess (!i) := by
  simp [Peers.send]

@[simp] theorem Peers.send_wire_self :
    (w.send i s out).wire i = w.wire i ++ if out = [] then [] else [out] := by
  simp [Peers.send]

@[simp] theorem Peers.send_wire_not : (w.send i s out).wire (!i) = w.wire (!i) := by
  simp [Peers.send]

@[simp] theorem Peers.send_started : (w.send i s out).started = w.started := rfl

@[simp] theorem Peers.send_stash : (w.send i s out).stash = w.stash := rfl

end Send

inductive PeersOp
  | start (i : Bool) (ρ : Draws) (now : ℤ)
  | tick (i : Bool) (ρ : Draws) (now : ℤ)
  /-- the oldest frame of side `i` reaches the other side -/
  | deliver (i : Bool) (ρ σ : Draws)
  | stash (i : Bool) (text : Bytes) (ρ : Draws)

def peersStep (C : Crypto) (env : Bool → TTE2EEEnv) (w : Peers) : PeersOp → Peers
  | .start i ρ now =>
    if (w.sess i).active || (w.sess i).initPending || (w.sess i).replyDue then w
    else
      let r := ttSessionStart C (w.sess i) (env i) ρ now ttFrameMax
      { w.send i r.1 (okBytes r.2) with started := true }
  | .tick i ρ now =>
    let r := ttSessionTick C (w.sess i) (env i) ρ now ttFrameMax
    w.send i r.1 (okBytes r.2)
  | .deliver i ρ σ =>
    match w.wire i with
    | [] => w
    | f :: rest =>
      let r := receive C (w.sess !i) (env !i) ρ σ f
      Peers.send { w with wire := Function.update w.wire i rest } (!i) r.1 r.2
  | .stash i text ρ =>
    if (w.sess i).active then w
    else
      let r := ttSessionSend C (w.sess i) text ttFrameMax ρ
      { w with
        sess := Function.update w.sess i r.1
        stash := Function.update w.stash i
          (match r.2 with
          | .ok _ => if text = [] then w.stash i else w.stash i ++ [text]
          | .error _ => w.stash i) }

def peersRun (C : Crypto) (env : Bool → TTE2EEEnv) (w : Peers) (ops : List PeersOp) : Peers :=
  ops.foldl (peersStep C env) w

def peersInit (s : Bool → TTSession) : Peers where
  sess i := reestablishPreserve (s i)
  wire _ := []
  started := false
  stash i := (s i).pending

variable {env : Bool → TTE2EEEnv} {w : Peers}

/-- The shapes of the pair: nobody started; one INIT under way; both INITs crossing (side `i`
has the lower key); the responder answered side `i`; both established. -/
inductive Phase (C : Crypto) (env : Bool → TTE2EEEnv) (w : Peers) : Prop
  | idle (sess : ∀ i, IdleSession (w.sess i)) (wire : ∀ i, w.wire i = [])
      (started : w.started = false)
  | one (i : Bool) (pend : PendingSession C (w.sess i) (env !i).selfPk)
      (other : IdleSession (w.sess !i)) (nonempty : w.wire i ≠ [])
      (inits : ∀ f ∈ w.wire i, IsInit C (w.sess i) (env i) f) (wire : w.wire (!i) = [])
  | both (i : Bool) (lower : (env i).selfPk.bytes < (env !i).selfPk.bytes)
      (pend : PendingSession C (w.sess i) (env !i).selfPk)
      (pend' : PendingSession C (w.sess !i) (env i).selfPk) (nonempty : w.wire i ≠ [])
      (inits : ∀ f ∈ w.wire i, IsInit C (w.sess i) (env i) f)
      (inits' : ∀ f ∈ w.wire (!i), IsInit C (w.sess !i) (env !i) f)
  | answered (i : Bool) (old : List Bytes) (reply : Bytes)
      (pend : PendingSession C (w.sess i) (env !i).selfPk)
      (answer : Answered C (env i) (env !i) (w.sess i) (w.sess !i) reply)
      (inits : ∀ f ∈ w.wire i, IsInit C (w.sess i) (env i) f)
      (wire : w.wire (!i) = old ++ [reply])
      (inits' : ∀ f ∈ old, (env i).selfPk.bytes < (env !i).selfPk.bytes ∧
        ∃ s₀, IsInit C s₀ (env !i) f)
  | done (i : Bool) (root : Key) (initiator : Established C (w.sess i) root true)
      (responder : Established C (w.sess !i) root false) (due : ∀ j, (w.sess j).replyDue = false)
      (inits : ∀ f ∈ w.wire i, ∃ s₀, PendingKeys C s₀ (env !i).selfPk ∧ IsInit C s₀ (env i) f)
      (wire : w.wire (!i) = [])

theorem bytes_lt_or_gt {a b : Bytes} (h : a ≠ b) : a < b ∨ b < a := by
  by_contra hc
  rw [not_or] at hc
  exact h (List.le_antisymm (List.not_lt.mp hc.2) (List.not_lt.mp hc.1))

theorem eq_or_eq_not (i j : Bool) : j = i ∨ j = !i := by
  cases i <;> cases j <;> simp

theorem Phase.crossing (hne : (env false).selfPk ≠ (env true).selfPk) (i : Bool)
    (pend : PendingSession C (w.sess i) (env !i).selfPk)
    (pend' : PendingSession C (w.sess !i) (env i).selfPk) (nonempty : w.wire i ≠ [])
    (nonempty' : w.wire (!i) ≠ []) (inits : ∀ f ∈ w.wire i, IsInit C (w.sess i) (env i) f)
    (inits' : ∀ f ∈ w.wire (!i), IsInit C (w.sess !i) (env !i) f) : Phase C env w := by
  have hpk : (env i).selfPk.bytes ≠ (env !i).selfPk.bytes := by
    rw [Ne, Blob.bytes_inj]
    cases i
    · exact hne
    · exact hne.symm
  rcases bytes_lt_or_gt hpk with hlt | hgt
  · exact .both i hlt pend pend' nonempty inits inits'
  · exact .both (!i) (by simpa using hgt) (by simpa using pend') (by simpa using pend) nonempty'
      (by simpa using inits') (by simpa using inits)

/-! ### A start -/

theorem phase_start (hC : C.AeadCorrect) (hD : C.DhCommutes)
    (hF : ∀ i, Friends C (env i) (env !i)) (hne : (env false).selfPk ≠ (env true).selfPk)
    (h : Phase C env w) (j : Bool) (ρ : Draws) (now : ℤ) :
    Phase C env (peersStep C env w (.start j ρ now)) := by
  obtain ⟨s', f, hst, hkeys, hinit, h1, h2, h3, h4, -⟩ :=
    ttSessionStart_spec hC hD (hF j) (w.sess j) ρ now ttFrameMax le_rfl
  have hpend : PendingSession C s' (env !j).selfPk := ⟨h1, h2, h3, h4, hkeys⟩
  have hfne : f ≠ [] := by
    rintro rfl
    obtain ⟨d, hd, -⟩ := hinit.peek
    cases hd
  have hskip (hb : (w.sess j).active = true ∨ (w.sess j).initPending = true) :
      peersStep C env w (.start j ρ now) = w := by
    rw [peersStep, if_pos (by rcases hb with hb | hb <;> simp [hb])]
  have hgo (hb : IdleSession (w.sess j)) : peersStep C env w (.start j ρ now) =
      { w.send j s' f with started := true } := by
    rw [peersStep, if_neg (by simp [hb.active, hb.initPending, hb.replyDue]), hst]
    rfl
  have hwire : (w.send j s' f).wire j = w.wire j ++ [f] := by simp [hfne]
  cases h with
  | idle sess wire started =>
    rw [hgo (sess j)]
    rw [wire j, List.nil_append] at hwire
    refine .one j ?_ ?_ ?_ ?_ ?_
    · simpa using hpend
    · simpa using sess !j
    · change (w.send j s' f).wire j ≠ []
      rw [hwire]
      simp
    · change ∀ g ∈ (w.send j s' f).wire j, IsInit C ((w.send j s' f).sess j) (env j) g
      rw [hwire, Peers.send_sess_self]
      simpa using hinit
    · simpa using wire !j
  | one i pend other nonempty inits wire =>
    rcases eq_or_eq_not i j with rfl | rfl
    · rw [hskip (Or.inr pend.initPending)]
      exact .one j pend other nonempty inits wire
    · rw [hgo other]
      rw [wire, List.nil_append] at hwire
      have hsend : ∀ b, Phase C env { w.send (!i) s' f with started := b } := by
        intro b
        refine .crossing hne i ?_ ?_ ?_ ?_ ?_ ?_
        · simpa [Peers.send] using pend
        · simpa [Peers.send] using hpend
        · simpa [Peers.send] using nonempty
        · change (w.send (!i) s' f).wire (!i) ≠ []
          rw [hwire]
          simp
        · simpa [Peers.send] using inits
        · change ∀ g ∈ (w.send (!i) s' f).wire (!i), IsInit C ((w.send (!i) s' f).sess !i) (env !i) g
          rw [hwire, Peers.send_sess_self]
          simpa using hinit
      exact hsend true
  | both i lower pend pend' nonempty inits inits' =>
    rw [hskip]
    · exact .both i lower pend pend' nonempty inits inits'
    · rcases eq_or_eq_not i j with rfl | rfl
      · exact Or.inr pend.initPending
      · exact Or.inr pend'.initPending
  | answered i old reply pend answer inits wire inits' =>
    rw [hskip]
    · exact .answered i old reply pend answer inits wire inits'
    · rcases eq_or_eq_not i j with rfl | rfl
      · exact Or.inr pend.initPending
      · obtain ⟨_, _, -, -, hest⟩ := answer.root
        exact Or.inl hest.active
  | done i root initiator responder due inits wire =>
    rw [hskip]
    · exact .done i root initiator responder due inits wire
    · rcases eq_or_eq_not i j with rfl | rfl
      · exact Or.inl initiator.active
      · exact Or.inl responder.active

theorem PendingSession.of_initAt {p : Key} (h : PendingSession C s p) (now : ℤ) :
    PendingSession C { s with initAt := now } p :=
  ⟨h.active, h.role, h.initPending, h.replyDue,
    ⟨h.keys.a2, h.keys.a3, h.keys.kem, h.keys.sealKey⟩⟩

theorem phase_tick (h : Phase C env w) (j : Bool) (ρ : Draws) (now : ℤ) :
    Phase C env (peersStep C env w (.tick j ρ now)) := by
  rcases ttSessionTick_spec (C := C) (w.sess j) (env j) ρ now ttFrameMax with hidle | ⟨hp, hs, hout⟩
  · have hw : peersStep C env w (.tick j ρ now) = w := by
      rw [peersStep, hidle]
      simp [Peers.send, okBytes]
    rwa [hw]
  -- only a pending side can repeat its INIT; its queue keeps INITs only
  set out := okBytes (ttSessionTick C (w.sess j) (env j) ρ now ttFrameMax).2 with hdef
  have hstep : peersStep C env w (.tick j ρ now) = w.send j { w.sess j with initAt := now } out := by
    rw [peersStep, hs]
  rw [hstep]
  have hmem (hi : ∀ f ∈ w.wire j, IsInit C (w.sess j) (env j) f) :
      ∀ f ∈ (w.wire j ++ if out = [] then [] else [out]),
        IsInit C { w.sess j with initAt := now } (env j) f := by
    intro f hf
    rcases List.mem_append.mp hf with hf | hf
    · exact hi f hf
    · split_ifs at hf with h0
      · cases hf
      · rw [List.mem_singleton] at hf
        subst hf
        exact hout.resolve_left h0
  cases h with
  | idle sess wire started =>
    rw [(sess j).initPending] at hp
    cases hp
  | one i pend other nonempty inits wire =>
    rcases eq_or_eq_not i j with rfl | rfl
    · refine .one j ?_ (by simpa using other) (by simp [nonempty]) ?_ (by simpa using wire)
      · simpa using pend.of_initAt now
      · simpa using hmem inits
    · rw [other.initPending] at hp
      cases hp
  | both i lower pend pend' nonempty inits inits' =>
    rcases eq_or_eq_not i j with rfl | rfl
    · refine .both j lower ?_ (by simpa using pend') (by simp [nonempty]) ?_ (by simpa using inits')
      · simpa using pend.of_initAt now
      · simpa using hmem inits
    · refine .both i lower (by simpa [Peers.send] using pend) ?_ (by simpa [Peers.send] using nonempty)
        (by simpa [Peers.send] using inits) ?_
      · simpa using pend'.of_initAt now
      · simpa using hmem inits'
  | answered i old reply pend answer inits wire inits' =>
    rcases eq_or_eq_not i j with rfl | rfl
    · refine .answered j old reply ?_ ?_ ?_ (by simpa using wire) inits'
      · simpa using pend.of_initAt now
      · rw [Peers.send_sess_self, Peers.send_sess_not]
        exact ⟨answer.root, answer.replyDue, answer.isReply⟩
      · simpa using hmem inits
    · obtain ⟨_, _, -, -, hest⟩ := answer.root
      rw [hest.notPending] at hp
      cases hp
  | done i root initiator responder due inits wire =>
    rcases eq_or_eq_not i j with rfl | rfl
    · rw [initiator.notPending] at hp
      cases hp
    · rw [responder.notPending] at hp
      cases hp

def Peers.pass (w : Peers) (j : Bool) (rest : List Bytes) (r : TTSession × Bytes) : Peers :=
  Peers.send { w with wire := Function.update w.wire j rest } (!j) r.1 r.2

section Pass

variable {j : Bool} {rest : List Bytes} {r : TTSession × Bytes}

@[simp] theorem Peers.pass_sess : (w.pass j rest r).sess j = w.sess j := by
  simp [Peers.pass, Peers.send]

@[simp] theorem Peers.pass_sess_not : (w.pass j rest r).sess (!j) = r.1 := by
  simp [Peers.pass, Peers.send]

@[simp] theorem Peers.pass_wire : (w.pass j rest r).wire j = rest := by
  simp [Peers.pass, Peers.send]

@[simp] theorem Peers.pass_wire_not :
    (w.pass j rest r).wire (!j) = w.wire (!j) ++ if r.2 = [] then [] else [r.2] := by
  simp [Peers.pass, Peers.send]

@[simp] theorem Peers.pass_not_sess : (w.pass (!j) rest r).sess j = r.1 := by
  simpa using Peers.pass_sess_not (w := w) (j := !j)

@[simp] theorem Peers.pass_not_wire :
    (w.pass (!j) rest r).wire j = w.wire j ++ if r.2 = [] then [] else [r.2] := by
  simpa using Peers.pass_wire_not (w := w) (j := !j)

end Pass

theorem IsReply.ne_nil (h : IsReply C t ea eb f) : f ≠ [] := by
  rintro rfl
  obtain ⟨d, hd, -⟩ := h.peek
  cases hd

theorem phase_deliver (hC : C.AeadCorrect) (hD : C.DhCommutes) (hK : C.KemCorrect)
    (hF : ∀ i, Friends C (env i) (env !i)) (h : Phase C env w) (j : Bool) (ρ σ : Draws) :
    Phase C env (peersStep C env w (.deliver j ρ σ)) := by
  cases hw : w.wire j with
  | nil =>
    have hs : peersStep C env w (.deliver j ρ σ) = w := by simp only [peersStep, hw]
    rwa [hs]
  | cons f rest =>
    have hs : peersStep C env w (.deliver j ρ σ) =
        w.pass j rest (receive C (w.sess !j) (env !j) ρ σ f) := by
      simp only [peersStep, hw, Peers.pass]
    rw [hs]
    have hrest {P : Bytes → Prop} (hi : ∀ g ∈ w.wire j, P g) : P f ∧ ∀ g ∈ rest, P g := by
      rw [hw] at hi
      exact ⟨hi f (by simp), fun g hg => hi g (by simp [hg])⟩
    cases h with
    | idle sess wire started =>
      rw [wire j] at hw
      cases hw
    | one i pend other nonempty inits wire =>
      rcases eq_or_eq_not i j with rfl | rfl
      · obtain ⟨hf, hr⟩ := hrest inits
        obtain ⟨ha, -⟩ := receive_fresh (ρ := ρ) (σ := σ) hC hD (hF j) pend.keys hf
          (Or.inl other.active) (by simp [other.role])
        refine .answered j [] (receive C (w.sess !j) (env !j) ρ σ f).2 (by simpa using pend)
          (by simpa using ha) (by simpa using hr) ?_ (by simp)
        simp [wire, ha.isReply.ne_nil]
      · rw [wire] at hw
        cases hw
    | both i lower pend pend' nonempty inits inits' =>
      rcases eq_or_eq_not i j with rfl | rfl
      · obtain ⟨hf, hr⟩ := hrest inits
        obtain ⟨ha, -⟩ := receive_fresh (ρ := ρ) (σ := σ) hC hD (hF j) pend.keys hf
          (Or.inr pend'.role) (fun _ => Or.inr lower)
        refine .answered j (w.wire !j) (receive C (w.sess !j) (env !j) ρ σ f).2
          (by simpa using pend) (by simpa using ha) (by simpa using hr) ?_
          (fun g hg => ⟨lower, _, inits' g hg⟩)
        simp [ha.isReply.ne_nil]
      · obtain ⟨hf, hr⟩ := hrest inits'
        have hi := receive_ignored (ρ := ρ) (σ := σ) (hF !i) hf (t := w.sess !!i)
          (p := (env !i).selfPk) (by simpa using pend)
          (by simpa using List.lt_asymm lower)
        rw [hi]
        refine .both i lower (by simpa using pend) (by simpa using pend') (by simpa using nonempty)
          (by simpa using inits) (by simpa using hr)
    | answered i old reply pend answer inits wire inits' =>
      obtain ⟨_, _, -, -, hest⟩ := answer.root
      rcases eq_or_eq_not i j with rfl | rfl
      · obtain ⟨hf, hr⟩ := hrest inits
        rw [receive_repeated hC hD (hF j) pend.keys hf hest answer.replyDue]
        refine .answered j old reply (by simpa using pend) (by simpa using answer)
          (by simpa using hr) (by simpa using wire) inits'
      · cases old with
        | nil =>
          rw [wire] at hw
          cases hw
          obtain ⟨root, hr, hi, hdue, hout, -⟩ := receive_reply (ρ := ρ) (σ := σ) hC hD hK (hF i)
            pend answer
          refine .done i root ?_ (by simpa using hr) ?_ ?_ (by simp)
          · simpa using hi
          · intro k
            rcases eq_or_eq_not i k with rfl | rfl
            · simpa using hdue
            · simpa using answer.replyDue
          · intro g hg
            simp only [Peers.pass_not_wire, Bool.not_not, hout, if_true, List.append_nil] at hg
            exact ⟨_, pend.keys, inits g hg⟩
        | cons g old =>
          rw [wire] at hw
          cases hw
          obtain ⟨lower, s₀, hg⟩ := inits' f (by simp)
          have hi := receive_ignored (ρ := ρ) (σ := σ) (hF !i) hg (t := w.sess !!i)
            (p := (env !i).selfPk) (by simpa using pend) (by simpa using List.lt_asymm lower)
          rw [hi]
          refine .answered i old reply (by simpa using pend) (by simpa using answer)
            (by simpa using inits) (by simp) fun k hk => inits' k (by simp [hk])
    | done i root initiator responder due inits wire =>
      rcases eq_or_eq_not i j with rfl | rfl
      · obtain ⟨⟨s₀, hk, hf⟩, hr⟩ := hrest inits
        rw [receive_repeated hC hD (hF j) hk hf responder (due _)]
        refine .done j root (by simpa using initiator) (by simpa using responder) ?_
          (by simpa using hr) (by simpa using wire)
        intro k
        rcases eq_or_eq_not j k with rfl | rfl
        · simpa using due k
        · simpa using due (!j)
      · rw [wire] at hw
        cases hw

/-! ### Stashing and runs -/

theorem ttSessionSend_inactive (ha : s.active = false) (text : Bytes) (cap : ℕ) (ρ : Draws) :
    ttSessionSend C s text cap ρ = ({ s with pending := s.pending ++ [text] }, .ok []) ∧ text ≠ [] ∨
      (∃ e, ttSessionSend C s text cap ρ = (s, .error e)) ∨
      ttSessionSend C s text cap ρ = (s, .ok []) ∧ text = [] := by
  unfold ttSessionSend
  by_cases h1 : text.length > ttFrameDataMax
  · exact Or.inr (Or.inl ⟨_, if_pos h1⟩)
  rw [if_neg h1, if_pos ha]
  by_cases h2 : s.pending.length ≥ ttSessionPendingMax
  · exact Or.inr (Or.inl ⟨_, if_pos h2⟩)
  rw [if_neg h2]
  by_cases h3 : text.length > 0
  · exact Or.inl ⟨if_pos h3, List.ne_nil_of_length_pos h3⟩
  · exact Or.inr (Or.inr ⟨if_neg h3, by simpa using h3⟩)

theorem Phase.of_pending (h : Phase C env w) (p : Bool → List Bytes) (st : Bool → List Bytes) :
    Phase C env { w with sess := fun j => { w.sess j with pending := p j }, stash := st } := by
  have hpend {j : Bool} {q : Key} (h : PendingSession C (w.sess j) q) :
      PendingSession C { w.sess j with pending := p j } q :=
    ⟨h.active, h.role, h.initPending, h.replyDue,
      ⟨h.keys.a2, h.keys.a3, h.keys.kem, h.keys.sealKey⟩⟩
  have hidle {j : Bool} (h : IdleSession (w.sess j)) :
      IdleSession { w.sess j with pending := p j } :=
    ⟨h.active, h.role, h.initPending, h.replyDue⟩
  have hest {j b : Bool} {root : Key} (h : Established C (w.sess j) root b) :
      Established C { w.sess j with pending := p j } root b :=
    ⟨h.active, h.role, h.notPending, h.root_eq, h.send_eq, h.recv_eq⟩
  cases h with
  | idle sess wire started => exact .idle (fun i => hidle (sess i)) wire started
  | one i pend other nonempty inits wire => exact .one i (hpend pend) (hidle other) nonempty inits wire
  | both i lower pend pend' nonempty inits inits' =>
    exact .both i lower (hpend pend) (hpend pend') nonempty inits inits'
  | answered i old reply pend answer inits wire inits' =>
    obtain ⟨ρ₀, l, hl, hk, he⟩ := answer.root
    exact .answered i old reply (hpend pend)
      ⟨⟨ρ₀, l, hl, ⟨hk.b1Sk, hk.b1Pk, hk.b3Pk, hk.kemCt⟩, hest he⟩, answer.replyDue, answer.isReply⟩
      inits wire inits'
  | done i root initiator responder due inits wire =>
    exact .done i root (hest initiator) (hest responder) due inits wire

theorem phase_stash (h : Phase C env w) (j : Bool) (text : Bytes) (ρ : Draws) :
    Phase C env (peersStep C env w (.stash j text ρ)) := by
  rw [peersStep]
  by_cases ha : (w.sess j).active = true
  · rwa [if_pos ha]
  rw [if_neg ha]
  rw [Bool.not_eq_true] at ha
  have key (q : List Bytes) (st : Bool → List Bytes) : Phase C env
      { w with sess := Function.update w.sess j { w.sess j with pending := q }, stash := st } := by
    have := h.of_pending (Function.update (fun i => (w.sess i).pending) j q) st
    convert this using 2
    funext i
    by_cases hi : i = j
    · subst hi
      simp
    · simp [Function.update_of_ne hi]
  rcases ttSessionSend_inactive (C := C) ha text ttFrameMax ρ with ⟨hs, -⟩ | ⟨e, hs⟩ | ⟨hs, -⟩ <;>
    rw [hs]
  · exact key _ _
  · exact key (w.sess j).pending _
  · exact key (w.sess j).pending _

theorem peersStep_phase (hC : C.AeadCorrect) (hD : C.DhCommutes) (hK : C.KemCorrect)
    (hF : ∀ i, Friends C (env i) (env !i)) (hne : (env false).selfPk ≠ (env true).selfPk)
    (h : Phase C env w) (op : PeersOp) : Phase C env (peersStep C env w op) := by
  cases op with
  | start i ρ now => exact phase_start hC hD hF hne h i ρ now
  | tick i ρ now => exact phase_tick h i ρ now
  | deliver i ρ σ => exact phase_deliver hC hD hK hF h i ρ σ
  | stash i text ρ => exact phase_stash h i text ρ

theorem ttSessionStart_pending (s : TTSession) (env : TTE2EEEnv) (ρ : Draws) (now : ℤ) (cap : ℕ) :
    (ttSessionStart C s env ρ now cap).1.pending = s.pending := by
  unfold ttSessionStart
  split
  · rfl
  dsimp only
  split
  · rfl
  split <;> rfl

theorem acceptInit_pending (s : TTSession) (env : TTE2EEEnv) (peerPk : Key) (ρ : Draws)
    {input : Bytes} {d : TTFrameDesc} (hp : ttFramePeek input = some d) :
    (acceptInit C s env peerPk ρ input d).session.pending = s.pending := by
  rcases acceptInit_cases C s env ρ peerPk hp with
    ⟨-, e, h⟩ | ⟨-, -, key, h⟩ | ⟨-, key, l, -, h⟩ <;> rw [h] <;> rfl

theorem feedInit_pending (env : TTE2EEEnv) (ρ : Draws) {input : Bytes} {d : TTFrameDesc}
    (hp : ttFramePeek input = some d) (ht : d.type = some .init) :
    (feedInit C s env ρ input d).session.pending = s.pending := by
  by_cases hr : initReachesOpen C s env input d
  · rcases feedInit_fresh (ρ := ρ) hr with h | h
    · rw [h]
    · rw [h, acceptInit_pending _ _ _ _ hp]
      unfold initTarget
      split_ifs <;> rfl
  · rw [(feedInit_early ht hr).1]

theorem feedData_pending (ρ : Draws) {input : Bytes} {d : TTFrameDesc} (cap : ℕ)
    (hp : ttFramePeek input = some d) :
    (feedData C s ρ input d cap).session.pending = s.pending := by
  obtain ⟨recv, rekey, rel, h⟩ := feedData_frame (C := C) (s := s) (ρ := ρ) cap hp
  rw [h]

theorem ttSessionFeed_pending (s : TTSession) (env : TTE2EEEnv) (ρ : Draws) (input : Bytes)
    (cap : ℕ) : (ttSessionFeed C s env ρ input cap).session.pending = s.pending := by
  rcases ttSessionFeed_dispatch (C := C) s env ρ input cap with
    hf | ⟨d, hp, ⟨ht, hf⟩ | ⟨-, hf⟩ | ⟨type, -, -, hf⟩ | ⟨-, last, hf⟩⟩ <;> rw [hf]
  · exact feedInit_pending env ρ hp ht
  · rcases feedReply_cases C s env ρ hp with
      ⟨r, h⟩ | ⟨-, -, -, -, l, -, h⟩ <;> rw [h]
    rfl
  · rcases feedControl_cases C s input d type with
      ⟨r, h⟩ | ⟨-, -, -, d', payload, -, -, h⟩ <;> rw [h]
  · exact feedData_pending ρ cap hp

theorem ttSessionReply_pending (s : TTSession) (env : TTE2EEEnv) (ρ : Draws) (cap : ℕ) :
    (ttSessionReply C s env ρ cap).1.pending = s.pending := by
  unfold ttSessionReply
  split
  · rfl
  split_ifs
  · rfl
  · rfl
  dsimp only
  split
  · rfl
  split <;> rfl

theorem receive_pending (s : TTSession) (env : TTE2EEEnv) (ρ σ : Draws) (f : Bytes) :
    (receive C s env ρ σ f).1.pending = s.pending := by
  simp only [receive]
  split_ifs
  · rw [ttSessionReply_pending, ttSessionFeed_pending]
  · rw [ttSessionFeed_pending]

theorem ttSessionTick_pending (s : TTSession) (env : TTE2EEEnv) (ρ : Draws) (now : ℤ) (cap : ℕ) :
    (ttSessionTick C s env ρ now cap).1.pending = s.pending := by
  unfold ttSessionTick
  split_ifs <;> rfl

theorem peersStep_stash (h : ∀ i, (w.sess i).pending = w.stash i) (op : PeersOp) (j : Bool) :
    ((peersStep C env w op).sess j).pending = (peersStep C env w op).stash j := by
  have hsend {i : Bool} {s : TTSession} (out : Bytes) (hs : s.pending = (w.sess i).pending) (j : Bool) :
      ((w.send i s out).sess j).pending = w.stash j := by
    rcases eq_or_eq_not i j with rfl | rfl
    · rw [Peers.send_sess_self, hs, h]
    · rw [Peers.send_sess_not, h]
  cases op with
  | start i ρ now =>
    rw [peersStep]
    split_ifs
    · exact h j
    · exact hsend (okBytes (ttSessionStart C (w.sess i) (env i) ρ now ttFrameMax).2)
        (ttSessionStart_pending _ _ _ _ _) j
  | tick i ρ now => exact hsend _ (ttSessionTick_pending _ _ _ _ _) j
  | deliver i ρ σ =>
    rw [peersStep]
    cases hw : w.wire i with
    | nil => exact h j
    | cons f rest =>
      have hp := receive_pending (C := C) (w.sess !i) (env !i) ρ σ f
      rcases eq_or_eq_not (!i) j with rfl | rfl
      · simp only [Peers.send_sess_self, hp, h, Peers.send_stash]
      · simp only [Peers.send_sess_not, h, Peers.send_stash]
  | stash i text ρ =>
    rw [peersStep]
    by_cases ha : (w.sess i).active = true
    · rw [if_pos ha]
      exact h j
    rw [if_neg ha]
    rw [Bool.not_eq_true] at ha
    by_cases hj : j = i
    · subst hj
      simp only [Function.update_self]
      rcases ttSessionSend_inactive (C := C) ha text ttFrameMax ρ with
        ⟨hs, ht⟩ | ⟨e, hs⟩ | ⟨hs, ht⟩ <;> rw [hs]
      · simp [ht, h]
      · exact h j
      · simp [ht, h]
    · simp only [Function.update_of_ne hj]
      exact h j

theorem peersRun_inv (hC : C.AeadCorrect) (hD : C.DhCommutes) (hK : C.KemCorrect)
    (hF : ∀ i, Friends C (env i) (env !i)) (hne : (env false).selfPk ≠ (env true).selfPk)
    (s : Bool → TTSession) (ops : List PeersOp) :
    Phase C env (peersRun C env (peersInit s) ops) ∧
      ∀ i, ((peersRun C env (peersInit s) ops).sess i).pending =
        (peersRun C env (peersInit s) ops).stash i := by
  induction ops using List.reverseRecOn with
  | nil => exact ⟨.idle (fun _ => ⟨rfl, rfl, rfl, rfl⟩) (fun _ => rfl) rfl, fun _ => rfl⟩
  | append_singleton ops op ih =>
    simp only [peersRun, List.foldl_append, List.foldl_cons, List.foldl_nil] at ih ⊢
    exact ⟨peersStep_phase hC hD hK hF hne ih.1 op, fun i => peersStep_stash ih.2 op i⟩

/-- Once a start was made and no handshake frame is in flight, both sides are established on
one root, one of them as the initiator, with every stashed text still there. -/
theorem simultaneous_init_resolves (hC : C.AeadCorrect) (hD : C.DhCommutes) (hK : C.KemCorrect)
    (hF : ∀ i, Friends C (env i) (env !i)) (hne : (env false).selfPk ≠ (env true).selfPk)
    (s : Bool → TTSession) (ops : List PeersOp) {w : Peers} (hw : w = peersRun C env (peersInit s) ops)
    (hstarted : w.started = true) (hquiet : ∀ i, w.wire i = []) :
    (∃ i root, Established C (w.sess i) root true ∧ Established C (w.sess !i) root false) ∧
      (∀ i, (w.sess i).replyDue = false) ∧ ∀ i, (w.sess i).pending = w.stash i := by
  obtain ⟨hphase, hstash⟩ := peersRun_inv hC hD hK hF hne s ops
  rw [← hw] at hphase hstash
  cases hphase with
  | idle sess wire started =>
    rw [started] at hstarted
    cases hstarted
  | one i pend other nonempty inits wire => exact absurd (hquiet i) nonempty
  | both i lower pend pend' nonempty inits inits' => exact absurd (hquiet i) nonempty
  | answered i old reply pend answer inits wire inits' =>
    rw [hquiet] at wire
    exact absurd wire.symm (by simp)
  | done i root initiator responder due inits wire =>
    exact ⟨⟨i, root, initiator, responder⟩, due, hstash⟩

namespace Instance

def crossing : List PeersOp :=
  [.stash false [1] (draws 1), .start false (draws 2) 0, .start true (draws 3) 0,
    .deliver true (draws 4) (draws 5), .deliver false (draws 6) (draws 7),
    .deliver true (draws 8) (draws 9)]

end Instance

theorem simultaneous_init_resolves_crossing :
    (∃ i root, Established Instance.crypto ((peersRun Instance.crypto Instance.envs
        (peersInit fun _ => .zero) Instance.crossing).sess i) root true ∧
      Established Instance.crypto ((peersRun Instance.crypto Instance.envs
        (peersInit fun _ => .zero) Instance.crossing).sess !i) root false) ∧
    ((peersRun Instance.crypto Instance.envs (peersInit fun _ => .zero) Instance.crossing).sess
      false).pending = [[1]] := by
  have h := simultaneous_init_resolves Instance.aeadCorrect Instance.dhCommutes Instance.kemCorrect
    Instance.friends (by decide +kernel) (fun _ => .zero) Instance.crossing rfl (by decide +kernel)
    (by decide +kernel)
  exact ⟨h.1, by decide +kernel⟩

end TkTox
