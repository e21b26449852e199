import TkTox.HandshakeFrames
import TkTox.Instance

/-!
The root two honest friends derive over a network that delays, duplicates, drops and reorders
their handshake frames. A REPLY does not name the INIT it answers; the roots agree as long as
no initiator is given the answer to an INIT of an earlier start.
-/

namespace TkTox

structure InitPub where
  a2Pk : Key
  a3Pk : Key
  kemPk : KemPk
deriving DecidableEq

def initPub (s : TTSession) : InitPub := ⟨s.ephA2Pk, s.ephA3Pk, s.kemPk⟩

def hdrInitPub (hdr : Bytes) : InitPub := ⟨hdrEph1 hdr, hdrEph2 hdr, hdrKemPk hdr⟩

/-- A frame on the network; a REPLY is remembered with the INIT it answers and the root its
builder held. -/
inductive NetFrame
  | init (f : Bytes)
  | reply (f : Bytes) (answers : InitPub) (root : Key)

def NetFrame.bytes : NetFrame → Bytes
  | .init f => f
  | .reply f _ _ => f

def NetFrame.isReply : NetFrame → Bool
  | .init _ => false
  | .reply _ _ _ => true

theorem NetFrame.eq_reply {n : NetFrame} (h : n.isReply = true) :
    ∃ f p root, n = .reply f p root := by
  cases n with
  | init f => cases h
  | reply f p root => exact ⟨f, p, root, rfl⟩

/-- Two friends, every frame either has ever sent, the INIT each last accepted and the roots
each has held. -/
structure Handshakers where
  sess : Bool → TTSession
  net : Bool → List NetFrame
  accepted : Bool → InitPub
  held : Bool → List Key

inductive HandshakeOp
  | start (i : Bool) (ρ : Draws) (now : ℤ)
  | tick (i : Bool) (ρ : Draws) (now : ℤ)
  | reply (i : Bool) (ρ : Draws)
  /-- the `k`-th frame the other side ever sent is fed to side `i` -/
  | deliver (i : Bool) (k : ℕ) (ρ : Draws)

def Handshakers.set (w : Handshakers) (i : Bool) (s : TTSession) (out : List NetFrame) :
    Handshakers :=
  { w with
    sess := Function.update w.sess i s
    net := Function.update w.net i (w.net i ++ out)
    held := Function.update w.held i (if s.active then s.root :: w.held i else w.held i) }

def handshakeStep (C : Crypto) (env : Bool → TTE2EEEnv) (w : Handshakers) :
    HandshakeOp → Handshakers
  | .start i ρ now =>
    match ttSessionStart C (w.sess i) (env i) ρ now ttFrameMax with
    | (s, .ok f) => w.set i s [.init f]
    | (s, .error _) => w.set i s []
  | .tick i ρ now =>
    match ttSessionTick C (w.sess i) (env i) ρ now ttFrameMax with
    | (s, .ok (b :: f)) => w.set i s [.init (b :: f)]
    | (s, _) => w.set i s []
  | .reply i ρ =>
    match ttSessionReply C (w.sess i) (env i) ρ ttFrameMax with
    | (s, .ok f) => w.set i s [.reply f (w.accepted i) (w.sess i).root]
    | (s, .error _) => w.set i s []
  | .deliver i k ρ =>
    match (w.net (!i))[k]? with
    | none => w
    | some n =>
      let r := ttSessionFeed C (w.sess i) (env i) ρ n.bytes ttFrameDataMax
      let w' := w.set i r.session []
      match n, ttFramePeek n.bytes with
      | .init _, some d =>
        if establishesOn C (w.sess i) (env i) ρ n.bytes ttFrameDataMax then
          { w' with accepted := Function.update w.accepted i (hdrInitPub d.hdr) }
        else w'
      | _, _ => w'

def handshakeRun (C : Crypto) (env : Bool → TTE2EEEnv) (w : Handshakers) (ops : List HandshakeOp) :
    Handshakers :=
  ops.foldl (handshakeStep C env) w

def Handshakers.fresh : Handshakers where
  sess _ := .zero
  net _ := []
  accepted _ := initPub .zero
  held _ := []

/-- A REPLY that makes its receiver active gives it the root its sender held when it built it. -/
def RootAgreed (C : Crypto) (env : Bool → TTE2EEEnv) (w : Handshakers) (op : HandshakeOp) : Prop :=
  ∀ i k ρ f answers root, op = .deliver i k ρ → (w.net (!i))[k]? = some (.reply f answers root) →
    (w.sess i).active = false → ((handshakeStep C env w op).sess i).active = true →
    ((handshakeStep C env w op).sess i).root = root ∧ root ∈ w.held (!i)

/-- A pending initiator is given no REPLY but one that answers the INIT of its current start. -/
def AnswersCurrent (w : Handshakers) : HandshakeOp → Prop
  | .deliver i k _ =>
    match (w.net (!i))[k]? with
    | some (.reply _ answers _) =>
      (w.sess i).initPending = true → (w.sess i).active = false → answers = initPub (w.sess i)
    | _ => True
  | _ => True

instance (w : Handshakers) (op : HandshakeOp) : Decidable (AnswersCurrent w op) :=
  match op with
  | .start _ _ _ | .tick _ _ _ | .reply _ _ => isTrue trivial
  | .deliver i k ρ =>
    match h : (w.net (!i))[k]? with
    | none => isTrue (by simp only [AnswersCurrent, h])
    | some (.init _) => isTrue (by simp only [AnswersCurrent, h])
    | some (.reply _ answers _) =>
      decidable_of_iff ((w.sess i).initPending = true → (w.sess i).active = false →
        answers = initPub (w.sess i)) (by simp only [AnswersCurrent, h])

variable {C : Crypto} {me peer : TTE2EEEnv} {s : TTSession} {acc : InitPub} {held : List Key}
  {ρ : Draws} {f : Bytes}

def ResponderRoot (C : Crypto) (me peer : TTE2EEEnv) (p : InitPub) (ρ : Draws) (root : Key) : Prop :=
  ∃ l, dhLegs C ρ.eph1 peer.selfPk me.selfSk p.a2Pk ρ.eph2 p.a3Pk = some l ∧
    root = handshakeRoot C l.1 l.2.1 l.2.2 (ttKemEnc C ρ.encSeed p.kemPk).2 peer.selfPk me.selfPk

/-- What a session of `me` satisfies between two calls; `acc` is the INIT it last accepted. -/
structure SessInv (C : Crypto) (me peer : TTE2EEEnv) (s : TTSession) (acc : InitPub) : Prop where
  pend : s.initPending = true →
    s.active = false ∧ s.replyDue = false ∧ s.replyCache = [] ∧ PendingKeys C s peer.selfPk
  answer : s.replyDue = true ∨ s.replyCache ≠ [] → s.active = true ∧
    ∃ ρ, ReplyKeys C s ρ acc.kemPk ∧ ResponderRoot C me peer acc ρ s.root
  cache : s.replyDue = false → s.replyCache ≠ [] → IsReply C s peer me s.replyCache

def FrameOk (C : Crypto) (me peer : TTE2EEEnv) (held : List Key) : NetFrame → Prop
  | .init f => ∃ s, PendingKeys C s peer.selfPk ∧ IsInit C s me f
  | .reply f p root => root ∈ held ∧ ∃ t ρ, IsReply C t peer me f ∧ ReplyKeys C t ρ p.kemPk ∧
      ResponderRoot C me peer p ρ root

structure SideInv (C : Crypto) (env : Bool → TTE2EEEnv) (w : Handshakers) (i : Bool) : Prop where
  sess : SessInv C (env i) (env !i) (w.sess i) (w.accepted i)
  held : (w.sess i).active = true → (w.sess i).root ∈ w.held i
  net : ∀ n ∈ w.net i, FrameOk C (env i) (env !i) (w.held i) n

theorem FrameOk.mono {n : NetFrame} (h : FrameOk C me peer held n) {held' : List Key}
    (hh : ∀ k ∈ held, k ∈ held') : FrameOk C me peer held' n := by
  cases n with
  | init f => exact h
  | reply f p root => exact ⟨hh root h.1, h.2⟩

variable {env : Bool → TTE2EEEnv} {w : Handshakers} {i : Bool}

theorem sideInv_accept (h : ∀ j, SideInv C env w j) {out : List NetFrame}
    (hs : SessInv C (env i) (env !i) s acc)
    (hout : ∀ n ∈ out, FrameOk C (env i) (env !i) (w.held i) n) (j : Bool) :
    SideInv C env { w.set i s out with accepted := Function.update w.accepted i acc } j := by
  by_cases hj : j = i
  · subst hj
    have hheld : ∀ k ∈ w.held j, k ∈ (if s.active then s.root :: w.held j else w.held j) := by
      intro k hk
      split_ifs
      · exact List.mem_cons_of_mem _ hk
      · exact hk
    constructor
    · simpa [Handshakers.set] using hs
    · intro ha
      simp only [Handshakers.set, Function.update_self] at ha ⊢
      rw [if_pos ha]
      exact List.mem_cons_self
    · intro n hn
      simp only [Handshakers.set, Function.update_self] at hn ⊢
      rcases List.mem_append.mp hn with hn | hn
      · exact ((h j).net n hn).mono hheld
      · exact (hout n hn).mono hheld
  · constructor
    · simpa [Handshakers.set, Function.update_of_ne hj] using (h j).sess
    · simpa [Handshakers.set, Function.update_of_ne hj] using (h j).held
    · simpa [Handshakers.set, Function.update_of_ne hj] using (h j).net

theorem sideInv_set (h : ∀ j, SideInv C env w j) {out : List NetFrame}
    (hs : SessInv C (env i) (env !i) s (w.accepted i))
    (hout : ∀ n ∈ out, FrameOk C (env i) (env !i) (w.held i) n) (j : Bool) :
    SideInv C env (w.set i s out) j := by
  have := sideInv_accept h hs hout j
  rwa [Function.update_eq_self] at this

theorem handshakeStep_start (hC : C.AeadCorrect) (hD : C.DhCommutes)
    (hF : Friends C (env i) (env !i)) (h : ∀ j, SideInv C env w j) (ρ : Draws) (now : ℤ) (j : Bool) :
    SideInv C env (handshakeStep C env w (.start i ρ now)) j := by
  obtain ⟨s, f, hs, hkeys, hinit, h1, -, -, h4, h5⟩ :=
    ttSessionStart_spec hC hD hF (w.sess i) ρ now ttFrameMax le_rfl
  simp only [handshakeStep, hs]
  refine sideInv_set h ⟨fun _ => ⟨h1, h4, h5, hkeys⟩, ?_, ?_⟩ ?_ j
  · rintro (hd | hc)
    · rw [h4] at hd
      cases hd
    · exact absurd h5 hc
  · exact fun _ hc => absurd h5 hc
  · intro n hn
    rw [List.mem_singleton] at hn
    subst hn
    exact ⟨s, hkeys, hinit⟩

theorem SessInv.of_initAt (h : SessInv C me peer s acc) (now : ℤ) :
    SessInv C me peer { s with initAt := now } acc := by
  refine ⟨fun hp => ?_, fun ha => ?_, h.cache⟩
  · obtain ⟨h1, h2, h3, hk⟩ := h.pend hp
    exact ⟨h1, h2, h3, ⟨hk.a2, hk.a3, hk.kem, hk.sealKey⟩⟩
  · obtain ⟨h1, ρ, hk, hr⟩ := h.answer ha
    exact ⟨h1, ρ, ⟨hk.b1Sk, hk.b1Pk, hk.b3Pk, hk.kemCt⟩, hr⟩

theorem handshakeStep_tick (h : ∀ j, SideInv C env w j) (ρ : Draws) (now : ℤ) (j : Bool) :
    SideInv C env (handshakeStep C env w (.tick i ρ now)) j := by
  rcases ttSessionTick_spec (C := C) (w.sess i) (env i) ρ now ttFrameMax with
    hidle | ⟨hp, hs, hout⟩
  · simp only [handshakeStep, hidle]
    exact sideInv_set h (h i).sess (by simp) j
  · have hsess := (h i).sess.of_initAt now
    have hkeys := ((h i).sess.pend hp).2.2.2
    rw [← hs] at hsess
    simp only [handshakeStep]
    split
    · rename_i s b f heq
      rw [heq] at hsess hout
      refine sideInv_set h hsess ?_ j
      intro n hn
      rw [List.mem_singleton] at hn
      subst hn
      exact ⟨w.sess i, hkeys, hout.resolve_left (List.cons_ne_nil b f)⟩
    · rename_i s r _ heq
      rw [heq] at hsess
      exact sideInv_set h hsess (by simp) j

theorem handshakeStep_reply (hC : C.AeadCorrect) (hD : C.DhCommutes)
    (hF : Friends C (env i) (env !i)) (h : ∀ j, SideInv C env w j) (ρ : Draws) (j : Bool) :
    SideInv C env (handshakeStep C env w (.reply i ρ)) j := by
  have hi := (h i).sess
  cases hdue : (w.sess i).replyDue with
  | true =>
    obtain ⟨f, hf, hreply⟩ := ttSessionReply_spec hC hD hF.symm hdue ρ ttFrameMax le_rfl
    obtain ⟨ha, ρ₀, hkeys, hroot⟩ := hi.answer (Or.inl hdue)
    have hnp : (w.sess i).initPending = false := by
      by_contra hp
      rw [Bool.not_eq_false] at hp
      rw [(hi.pend hp).1] at ha
      cases ha
    simp only [handshakeStep, hf]
    have hsess : SessInv C (env i) (env !i)
        { w.sess i with replyDue := false, replyCache := f } (w.accepted i) := by
      refine ⟨fun hp => ?_, fun _ => ⟨ha, ρ₀, ?_, hroot⟩, fun _ _ => hreply⟩
      · rw [hnp] at hp
        cases hp
      · exact ⟨hkeys.b1Sk, hkeys.b1Pk, hkeys.b3Pk, hkeys.kemCt⟩
    refine sideInv_set h hsess ?_ j
    · intro n hn
      rw [List.mem_singleton] at hn
      subst hn
      exact ⟨(h i).held ha, _, ρ₀, hreply, hkeys, hroot⟩
  | false =>
    have hstep : ttSessionReply C (w.sess i) (env i) ρ ttFrameMax =
        if (w.sess i).replyCache = [] ∨ ttFrameMax < (w.sess i).replyCache.length
        then (w.sess i, .error .badState) else (w.sess i, .ok (w.sess i).replyCache) := by
      simp only [ttSessionReply, hF.peerPk_left, hdue, if_true]
    by_cases hc : (w.sess i).replyCache = [] ∨ ttFrameMax < (w.sess i).replyCache.length
    · simp only [handshakeStep, hstep, if_pos hc]
      exact sideInv_set h hi (by simp) j
    · simp only [handshakeStep, hstep, if_neg hc]
      rw [not_or] at hc
      obtain ⟨ha, ρ₀, hkeys, hroot⟩ := hi.answer (Or.inr hc.1)
      refine sideInv_set h hi ?_ j
      intro n hn
      rw [List.mem_singleton] at hn
      subst hn
      exact ⟨(h i).held ha, _, ρ₀, hi.cache hdue hc.1, hkeys, hroot⟩

theorem ttSessionFeed_isInit (hC : C.AeadCorrect) (hD : C.DhCommutes) (hF : Friends C me peer)
    (hs : SessInv C me peer s acc) {s₀ : TTSession} (hk : PendingKeys C s₀ me.selfPk)
    (hf : IsInit C s₀ peer f) {d : TTFrameDesc} (hd : ttFramePeek f = some d) (ρ : Draws) (cap : ℕ) :
    ((ttSessionFeed C s me ρ f cap).session = s ∧ establishesOn C s me ρ f cap = false) ∨
    (establishesOn C s me ρ f cap = true ∧ ∃ t key l,
      (ttSessionFeed C s me ρ f cap).session = acceptedInit C t me peer.selfPk ρ key d.hdr l ∧
      t.replyCache = [] ∧
      dhLegs C ρ.eph1 peer.selfPk me.selfSk s₀.ephA2Pk ρ.eph2 s₀.ephA3Pk = some l) := by
  obtain ⟨d', hd', ht, hh, -⟩ := hf.peek
  rw [hd] at hd'
  cases hd'
  have hik : hdrIk d.hdr = peer.selfPk := by rw [hh, hdrIk_handshakeHdr]
  have hret : initRetransmit C s me f = (s.active && !s.iAmInitiator) := by
    simp only [initRetransmit, hd, ht, hf.initOpens hC hD hF.symm hk hd]
    simp
  have hfeed : ttSessionFeed C s me ρ f cap = feedInit C s me ρ f d := by
    simp only [ttSessionFeed, hd, ht]
  rw [establishesOn, hfeed, hret]
  by_cases hr : initReachesOpen C s me f d
  · have hnr : (s.active && !s.iAmInitiator) = false := by
      have := hr.2.2.2
      rwa [hf.initOpens hC hD hF.symm hk hd, Bool.and_true] at this
    rcases feedInit_fresh (ρ := ρ) hr with he | he
    · rw [he]
      exact Or.inl ⟨rfl, rfl⟩
    · obtain ⟨key, l, hl, hacc⟩ := acceptInit_isInit hC hD hF.symm hk hf hd (initTarget s) ρ
      rw [hik] at he
      rw [he, hacc, hnr]
      refine Or.inr ⟨rfl, _, key, l, rfl, ?_, hl⟩
      -- a cached REPLY belongs to an active responder, which takes an INIT for a retransmit
      unfold initTarget
      split_ifs with hi
      · rfl
      · by_contra hc
        have ha := (hs.answer (Or.inr hc)).1
        simp [ha] at hnr hi
        simp [hi] at hnr
  · obtain ⟨hsame, hh'⟩ := feedInit_early (ρ := ρ) ht hr
    refine Or.inl ⟨hsame, ?_⟩
    by_cases hhs : (feedInit C s me ρ f d).handshaked = true
    · obtain ⟨h1, h2, -⟩ := hh' hhs
      simp [h1, h2]
    · simp only [Bool.not_eq_true] at hhs
      simp [hhs]

theorem handshakeStep_deliver_init (hC : C.AeadCorrect) (hD : C.DhCommutes)
    (hF : Friends C (env i) (env !i)) (h : ∀ j, SideInv C env w j) {k : ℕ}
    (hn : (w.net (!i))[k]? = some (.init f)) (ρ : Draws) (j : Bool) :
    SideInv C env (handshakeStep C env w (.deliver i k ρ)) j := by
  obtain ⟨s₀, hk, hf⟩ := (h !i).net _ (List.mem_of_getElem? hn)
  rw [Bool.not_not] at hk
  obtain ⟨d, hd, -, hh, -⟩ := hf.peek
  have hi := (h i).sess
  rcases ttSessionFeed_isInit hC hD hF hi hk hf hd ρ ttFrameDataMax with
    ⟨hsame, he⟩ | ⟨he, t, key, l, hs, hcache, hl⟩
  · simp only [handshakeStep, hn, NetFrame.bytes, hd, he, hsame, Bool.false_eq_true, if_false]
    exact sideInv_set h hi (by simp) j
  · simp only [handshakeStep, hn, NetFrame.bytes, hd, he, hs, if_true]
    have hpub : hdrInitPub d.hdr = initPub s₀ := by
      simp [hdrInitPub, initPub, hh]
    have hkem : hdrKemPk d.hdr = s₀.kemPk := congrArg InitPub.kemPk hpub
    have hkeys := acceptedInit_replyKeys (C := C) t (env i) (env !i).selfPk ρ key d.hdr l
    have hest := acceptedInit_established (C := C) t (env i) (env !i).selfPk ρ key d.hdr l
    rw [hkem] at hkeys hest
    have hsess : SessInv C (env i) (env !i)
        (acceptedInit C t (env i) (env !i).selfPk ρ key d.hdr l) (hdrInitPub d.hdr) := by
      rw [hpub]
      refine ⟨fun hx => (by cases hx), fun _ => ⟨rfl, ρ, hkeys, l, hl, hest.root_eq⟩, ?_⟩
      exact fun _ hc => absurd hcache hc
    exact sideInv_accept h hsess (by simp) j

theorem handshakeStep_deliver_reply (h : ∀ j, SideInv C env w j) {k : ℕ} {p : InitPub} {root : Key}
    (hn : (w.net (!i))[k]? = some (.reply f p root)) (ρ : Draws) (j : Bool) :
    SideInv C env (handshakeStep C env w (.deliver i k ρ)) j := by
  obtain ⟨-, t, ρ₀, hf, -, -⟩ := (h !i).net _ (List.mem_of_getElem? hn)
  obtain ⟨d, hd, ht, -⟩ := hf.peek
  have hi := (h i).sess
  simp only [handshakeStep, hn, NetFrame.bytes, ttSessionFeed, hd, ht]
  rcases feedReply_cases C (w.sess i) (env i) ρ hd with
    ⟨r, he⟩ | ⟨hp, -, -, -, l, -, he⟩
  · rw [he]
    exact sideInv_set h hi (by simp) j
  · obtain ⟨-, hdue, hcache, -⟩ := hi.pend hp
    have hsess : SessInv C (env i) (env !i)
        (acceptedReply C (w.sess i) (env i) (hdrIk d.hdr) ρ d.hdr l) (w.accepted i) := by
      refine ⟨fun hx => (by cases hx), ?_, fun _ hc => absurd hcache hc⟩
      rintro (hdue' | hc)
      · rw [show (w.sess i).replyDue = true from hdue'] at hdue
        cases hdue
      · exact absurd hcache hc
    rw [he]
    exact sideInv_set h hsess (by simp) j

theorem handshakeStep_inv (hC : C.AeadCorrect) (hD : C.DhCommutes)
    (hF : ∀ i, Friends C (env i) (env !i)) (h : ∀ j, SideInv C env w j) (op : HandshakeOp) (j : Bool) :
    SideInv C env (handshakeStep C env w op) j := by
  cases op with
  | start i ρ now => exact handshakeStep_start hC hD (hF i) h ρ now j
  | tick i ρ now => exact handshakeStep_tick h ρ now j
  | reply i ρ => exact handshakeStep_reply hC hD (hF i) h ρ j
  | deliver i k ρ =>
    cases hn : (w.net (!i))[k]? with
    | none =>
      simp only [handshakeStep, hn]
      exact h j
    | some n =>
      cases n with
      | init f => exact handshakeStep_deliver_init hC hD (hF i) h hn ρ j
      | reply f p root => exact handshakeStep_deliver_reply h hn ρ j

theorem handshakeRun_inv (hC : C.AeadCorrect) (hD : C.DhCommutes)
    (hF : ∀ i, Friends C (env i) (env !i)) (ops : List HandshakeOp) (j : Bool) :
    SideInv C env (handshakeRun C env .fresh ops) j := by
  induction ops using List.reverseRecOn generalizing j with
  | nil =>
    have hz : SessInv C (env j) (env !j) .zero (initPub .zero) :=
      ⟨fun hx => (by cases hx), fun ha => ha.elim (fun hx => (by cases hx)) fun hc => absurd rfl hc,
        fun _ hc => absurd rfl hc⟩
    exact ⟨hz, fun hx => (by cases hx), fun _ hx => (by cases hx)⟩
  | append_singleton ops op ih =>
    simp only [handshakeRun, List.foldl_append, List.foldl_cons, List.foldl_nil] at ih ⊢
    exact handshakeStep_inv hC hD hF ih op j

theorem rootAgreed_of_answersCurrent (hC : C.AeadCorrect) (hD : C.DhCommutes) (hK : C.KemCorrect)
    (hF : ∀ i, Friends C (env i) (env !i)) (h : ∀ j, SideInv C env w j) {op : HandshakeOp}
    (ha : AnswersCurrent w op) : RootAgreed C env w op := by
  rintro i k ρ f p root rfl hn hact hact'
  have hcur : (w.sess i).initPending = true → p = initPub (w.sess i) := by
    intro hp
    simp only [AnswersCurrent, hn] at ha
    exact ha hp hact
  obtain ⟨hheld, t, ρ₀, hf, hkeys, l, hl, hroot⟩ := (h !i).net _ (List.mem_of_getElem? hn)
  rw [Bool.not_not] at hf hl hroot
  obtain ⟨d, hd, ht, -⟩ := hf.peek
  have hsess : ((handshakeStep C env w (.deliver i k ρ)).sess i) =
      (feedReply C (w.sess i) (env i) ρ f d).session := by
    simp only [handshakeStep, hn, NetFrame.bytes, ttSessionFeed, hd, ht]
    simp [Handshakers.set]
  rw [hsess] at hact' ⊢
  refine ⟨?_, hheld⟩
  rcases feedReply_cases C (w.sess i) (env i) ρ hd with
    ⟨r, he⟩ | ⟨hp, -, -, -, -⟩
  · rw [he, hact] at hact'
    cases hact'
  · obtain ⟨-, -, -, hpk⟩ := (h i).sess.pend hp
    have hpub := hcur hp
    rw [hpub] at hkeys hl hroot
    obtain ⟨l', hl', hfeed, hkem⟩ := feedReply_isReply hC hD hK (hF i) hpk hp hact hkeys hf hd ρ
    change dhLegs C ρ₀.eph1 (env i).selfPk (env !i).selfSk (w.sess i).ephA2Pk ρ₀.eph2
      (w.sess i).ephA3Pk = some l at hl
    rw [hl] at hl'
    cases hl'
    rw [hfeed, hroot, (acceptedReply_established (C := C) _ _ _ _ _ _).root_eq, hkem]
    rfl

/-- In every run in which no pending initiator is given the answer to an earlier INIT, every
REPLY that makes an initiator active gives it the root the responder held. -/
theorem handshake_roots_agree (hC : C.AeadCorrect) (hD : C.DhCommutes) (hK : C.KemCorrect)
    (hF : ∀ i, Friends C (env i) (env !i)) (ops : List HandshakeOp)
    (hops : ∀ k op, ops[k]? = some op →
      AnswersCurrent (handshakeRun C env .fresh (ops.take k)) op) :
    ∀ k op, ops[k]? = some op → RootAgreed C env (handshakeRun C env .fresh (ops.take k)) op :=
  fun k op hk => rootAgreed_of_answersCurrent hC hD hK hF (handshakeRun_inv hC hD hF _)
    (hops k op hk)

namespace Instance

def envs (i : Bool) : TTE2EEEnv := if i then bobEnv else aliceEnv

theorem friends (i : Bool) : Friends crypto (envs i) (envs !i) := by
  cases i <;> exact ⟨rfl, rfl, rfl, rfl⟩

def answeredOps : List HandshakeOp :=
  [.start false (draws 1) 0, .deliver true 0 (draws 2), .reply true (draws 3)]

def deliveredOps : List HandshakeOp := answeredOps ++ [.deliver false 0 (draws 5)]

def restartedOps : List HandshakeOp := answeredOps ++ [.start false (draws 4) 0]

theorem stale_reply_breaks_root :
    ((handshakeStep crypto envs (handshakeRun crypto envs .fresh restartedOps)
      (.deliver false 0 (draws 5))).sess false).active = true ∧
    ((handshakeStep crypto envs (handshakeRun crypto envs .fresh restartedOps)
      (.deliver false 0 (draws 5))).sess false).root ∉
        (handshakeRun crypto envs .fresh restartedOps).held true ∧
    ¬ RootAgreed crypto envs (handshakeRun crypto envs .fresh restartedOps)
      (.deliver false 0 (draws 5)) := by
  have hact : ((handshakeStep crypto envs (handshakeRun crypto envs .fresh restartedOps)
      (.deliver false 0 (draws 5))).sess false).active = true := by decide +kernel
  have hroot : ((handshakeStep crypto envs (handshakeRun crypto envs .fresh restartedOps)
      (.deliver false 0 (draws 5))).sess false).root ∉
        (handshakeRun crypto envs .fresh restartedOps).held true := by decide +kernel
  have hreply : (((handshakeRun crypto envs .fresh restartedOps).net (!false))[0]?.map
      NetFrame.isReply) = some true := by decide +kernel
  obtain ⟨n, hn, hr⟩ := Option.map_eq_some_iff.mp hreply
  obtain ⟨f, p, root, rfl⟩ := NetFrame.eq_reply hr
  refine ⟨hact, hroot, fun h => ?_⟩
  obtain ⟨heq, hheld⟩ := h false 0 (draws 5) f p root rfl hn (by decide +kernel) hact
  rw [← heq, Bool.not_false] at hheld
  exact hroot hheld

end Instance

theorem handshake_roots_agree_answered :
    RootAgreed Instance.crypto Instance.envs
      (handshakeRun Instance.crypto Instance.envs .fresh (Instance.deliveredOps.take 3))
      (.deliver false 0 (Instance.draws 5)) := by
  have hops : ∀ k < 4, ∀ op ∈ Instance.deliveredOps[k]?, AnswersCurrent
      (handshakeRun Instance.crypto Instance.envs .fresh (Instance.deliveredOps.take k)) op := by
    decide +kernel
  have hlen : Instance.deliveredOps.length = 4 := by decide
  refine handshake_roots_agree Instance.aeadCorrect Instance.dhCommutes Instance.kemCorrect
    Instance.friends Instance.deliveredOps (fun k op hop => hops k ?_ op hop) 3 _ rfl
  rw [← hlen]
  exact (List.getElem?_eq_some_iff.mp hop).1

end TkTox
