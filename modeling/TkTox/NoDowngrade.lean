import TkTox.FeedCases
import TkTox.Machine
import TkTox.SubmitText

/-!
Plaintext for a friend whose policy demands encryption. While `required` is set all that a call of the
chat engine hands toxcore are frames its session sealed, and none shows a received text as it came.
-/

namespace TkTox

open ChatEffect

section

variable {C : Crypto} {env : ChatEnv} {Q : Prop} {t t' t'' : Chat}

theorem sendPlain_held (hQ : ¬ Q) (type : ToxMessageType) (text : Bytes) (t : Chat) :
    Held C env false Q t (sendPlain env type text t) := by
  have htick : Held C env false Q t t.tick := .of_log rfl .refl rfl
  rw [sendPlain]
  cases env.message t.clock with
  | ok mid =>
    have hplain := htick.trans (.emit (e := .plain type ⟨0, text⟩) trivial fun h => absurd h hQ)
    exact hplain.trans (.emit trivial fun _ => trivial)
  | notConnected => exact htick.trans (requeue_held _ _)
  | other => exact htick

theorem handleCmdSendMessage_held (hon : LayerOn env) (type : ToxMessageType) (text : Bytes) (t : Chat) :
    Held C env false (t.required = true) t (handleCmdSendMessage C env type text t) := by
  rw [handleCmdSendMessage, if_pos ⟨hon.mode, hon.friend⟩]
  split_ifs with h1 h2
  · exact e2eeWarn_held t _
  · have hfallback : Held C env false (t.required = true) t { t with fallback := true } :=
      .of_log rfl .refl rfl
    exact (hfallback.trans (e2eeWarn_held _ _)).trans (sendPlain_held h2 _ _ _)
  · exact sendText_held type text t

/-- The text is what a frame opened to under a key of the receiving ratchet. -/
def OpenedText (C : Crypto) (s : TTSession) (frame text : Bytes) : Prop :=
  s.active = true ∧ ∃ d key taken, ttFramePeek frame = some d ∧ recvKey C s.recv d.seq = .ok (key, taken) ∧
    ttFrameDecode C frame key ttFrameDataMax = some (d, text)

theorem acceptInit_ret (s : TTSession) (ident : TTE2EEEnv) (peerPk : Key) (ρ : Draws) (input : Bytes)
    (d : TTFrameDesc) (b : UInt8) (pt : Bytes) : (acceptInit C s ident peerPk ρ input d).ret ≠ .ok (b :: pt) := by
  rw [acceptInit]
  cases sealKeyDerive C ident.selfSk (hdrEph1 d.hdr) ident.selfPk with
  | none => simp
  | some key =>
    dsimp only
    cases ttFrameDecode C input key 16 with
    | none => simp
    | some r =>
      dsimp only
      split <;> simp

theorem feedInit_ret (s : TTSession) (ident : TTE2EEEnv) (ρ : Draws) (input : Bytes) (d : TTFrameDesc)
    (b : UInt8) (pt : Bytes) : (feedInit C s ident ρ input d).ret ≠ .ok (b :: pt) := by
  rw [feedInit]
  by_cases hlen : d.hdr.length ≠ ttHdrInit
  · rw [if_pos hlen]
    simp
  rw [if_neg hlen]
  cases ident.peerPk with
  | none => simp
  | some peerPk =>
    dsimp only
    split_ifs
    · simp
    · simp
    · exact acceptInit_ret _ _ _ _ _ _ _ _
    · simp
    · exact acceptInit_ret _ _ _ _ _ _ _ _

theorem feedReply_ret (s : TTSession) (ident : TTE2EEEnv) (ρ : Draws) (input : Bytes) (d : TTFrameDesc)
    (b : UInt8) (pt : Bytes) : (feedReply C s ident ρ input d).ret ≠ .ok (b :: pt) := by
  rw [feedReply]
  by_cases hp : s.initPending = false ∨ s.active = true
  · rw [if_pos hp]
    simp
  rw [if_neg hp]
  by_cases hlen : d.hdr.length ≠ ttHdrReply
  · rw [if_pos hlen]
    simp
  rw [if_neg hlen]
  cases ident.peerPk with
  | none => simp
  | some peerPk =>
    dsimp only
    by_cases hik : hdrIk d.hdr ≠ peerPk
    · rw [if_pos hik]
      simp
    rw [if_neg hik]
    cases sealKeyDerive C ident.selfSk (hdrEph1 d.hdr) ident.selfPk with
    | none => simp
    | some key =>
      dsimp only
      cases ttFrameDecode C input key 16 with
      | none => simp
      | some r =>
        dsimp only
        split <;> simp

theorem feedControl_ret (s : TTSession) (type : TTFrameType) (input : Bytes) (d : TTFrameDesc) (b : UInt8)
    (pt : Bytes) : (feedControl C s type input d).ret ≠ .ok (b :: pt) := by
  unfold feedControl
  by_cases ha : s.active = false
  · rw [if_pos ha]
    simp
  rw [if_neg ha]
  by_cases hl : s.lossy = true
  · rw [if_pos hl]
    simp
  rw [if_neg hl]
  by_cases hh : d.hdr.length ≠ 0
  · rw [if_pos hh]
    simp
  rw [if_neg hh]
  cases ttFrameDecode C input (controlKey C s.root) 16 with
  | none => simp
  | some r =>
    dsimp only
    split_ifs <;> simp

theorem ttSessionFeed_openedText {s : TTSession} {ident : TTE2EEEnv} {ρ : Draws} {input : Bytes} {b : UInt8}
    {pt : Bytes} (h : (ttSessionFeed C s ident ρ input ttFrameDataMax).ret = .ok (b :: pt)) :
    OpenedText C s input (b :: pt) := by
  obtain he | ⟨d, hp, ⟨-, he⟩ | ⟨-, he⟩ | ⟨type, -, -, he⟩ | ⟨-, last, he⟩⟩ :=
    ttSessionFeed_dispatch (C := C) s ident ρ input ttFrameDataMax
  · rw [he] at h
    cases h
  · rw [he] at h
    exact absurd h (feedInit_ret _ _ _ _ _ _ _)
  · rw [he] at h
    exact absurd h (feedReply_ret _ _ _ _ _ _ _)
  · rw [he] at h
    exact absurd h (feedControl_ret _ _ _ _ _ _)
  · rw [he] at h
    obtain ⟨e, hd⟩ | ⟨-, key, taken, -, -, hd⟩ | ⟨ha, key, taken, pt', hk, hdec, hd⟩ :=
      feedData_cases (C := C) (s := { s with lastIn := last }) (ρ := ρ) ttFrameDataMax hp
    · rw [hd] at h
      cases h
    · rw [hd] at h
      cases h
    · rw [hd] at h
      cases h
      exact ⟨ha, d, key, taken, hp, hk, hdec⟩

structure Guards (P : ChatEffect → Prop) (t t' : Chat) : Prop where
  keeps : t.required = true → t'.required = true
  covert : t.required = true ∨ t'.required = true → ∃ l, t'.log = t.log ++ l ∧ ∀ e ∈ l, P e

def Allows (C : Crypto) (env : ChatEnv) (s : TTSession) (e : ChatEffect) : Prop :=
  e.Sealed C env.ident false s ∧ e.Covert

theorem Held.guards (h : Held C env false (t.required = true) t t') : Guards (Allows C env t.e2ee) t t' := by
  refine ⟨fun hr => h.required.trans hr, fun hr => ?_⟩
  rw [h.required, or_self] at hr
  obtain ⟨l, hl, hc⟩ := h.log
  exact ⟨l, hl, fun e he => ⟨(hc e he).1, (hc e he).2 hr⟩⟩

theorem Held.then_guards (h : Held C env false True t t') (h' : Guards (Allows C env t'.e2ee) t' t'') :
    Guards (Allows C env t.e2ee) t t'' := by
  refine ⟨fun hr => h'.keeps (h.required.trans hr), ?_⟩
  intro hr
  obtain ⟨l, hl, hc⟩ := h.log
  obtain ⟨l', hl', hc'⟩ := h'.covert (by rwa [h.required])
  refine ⟨l ++ l', by rw [hl', hl, List.append_assoc], ?_⟩
  intro e he
  obtain he | he := List.mem_append.mp he
  · exact ⟨(hc e he).1, (hc e he).2 trivial⟩
  · exact ⟨(hc' e he).1.of_moves h.moves, (hc' e he).2⟩

theorem Guards.emit {P : ChatEffect → Prop} {e : ChatEffect} (h : Guards P t t') (he : P e) :
    Guards P t (t'.emit e) := by
  refine ⟨h.keeps, fun hr => ?_⟩
  obtain ⟨l, hl, hc⟩ := h.covert hr
  refine ⟨l ++ [e], by rw [Chat.emit_log, hl, List.append_assoc], ?_⟩
  intro e' he'
  obtain he' | he' := List.mem_append.mp he'
  · exact hc e' he'
  · rw [List.mem_singleton.mp he']
    exact he

theorem Guards.mono {P P' : ChatEffect → Prop} (hP : ∀ e, P e → P' e) (h : Guards P t t') : Guards P' t t' := by
  refine ⟨h.keeps, fun hr => ?_⟩
  obtain ⟨l, hl, hp⟩ := h.covert hr
  exact ⟨l, hl, fun e he => hP e (hp e he)⟩

theorem rxAnswer_held (t : Chat) (ret : Except TTE2EEStatus Bytes) : Held C env false Q t (rxAnswer C env t ret) := by
  unfold rxAnswer
  split
  · split_ifs with hdue
    · exact rxReply_held hdue
    · exact .refl t
  · exact .refl t

theorem rxEstablished_guards (hon : LayerOn env) (t : Chat) (wasActive : Bool) :
    Guards (Allows C env t.e2ee) t (rxEstablished C env t wasActive) := by
  have htail (t : Chat) : Held C env false (t.required = true) t (let t := e2eePump C env t.e2ee.pending.length t
      if t.oq.count > 0 ∧ t.oqFlushing = false then offlineFlushFriend C env t else t) := by
    have hpump : Held C env false (t.required = true) t (e2eePump C env t.e2ee.pending.length t) := e2eePump_held _ t
    dsimp only
    split_ifs
    · exact hpump.trans (offlineFlushFriend_held _ fun hr => ⟨hon, hpump.required.trans hr⟩)
    · exact hpump
  rw [rxEstablished]
  by_cases hnew : (!wasActive && !t.required) = true
  · have henforce : Held C env false True { t with fallback := false, required := true }
        (({ t with fallback := false, required := true } : Chat).emit (.event (.e2eeEnforce true))) :=
      .emit trivial fun _ => trivial
    have hrest := henforce.then_guards (htail _).guards
    simp only [hnew, if_true]
    exact ⟨fun _ => hrest.keeps rfl, fun _ => hrest.covert (.inl rfl)⟩
  · have hrest := (htail { t with fallback := false }).guards
    simp only [hnew]
    exact ⟨hrest.keeps, hrest.covert⟩

theorem rxHandshaked_guards (hon : LayerOn env) (t : Chat) (wasActive : Bool)
    (ret : Except TTE2EEStatus Bytes) : Guards (Allows C env t.e2ee) t (rxHandshaked C env t wasActive ret) := by
  have hest : Guards (Allows C env t.e2ee) t (if (rxAnswer C env t ret).e2ee.active = true then
      rxEstablished C env (rxAnswer C env t ret) wasActive else rxAnswer C env t ret) := by
    split_ifs
    · exact (rxAnswer_held t ret).then_guards (rxEstablished_guards hon _ wasActive)
    · exact (rxAnswer_held t ret).guards
  rw [rxHandshaked]
  generalize (if (rxAnswer C env t ret).e2ee.active = true then
      rxEstablished C env (rxAnswer C env t ret) wasActive else rxAnswer C env t ret) = t' at hest ⊢
  split_ifs
  · exact hest
  · exact hest.emit ⟨trivial, trivial⟩

theorem rxError_held (t : Chat) (e : TTE2EEStatus) : Held C env false Q t (rxError C env t e).1 ∧
    (t.required = true → (rxError C env t e).2 = true) := by
  rw [rxError]
  split_ifs with h1 h2 h3 h4 h5
  · exact ⟨e2eeStart_held t, fun _ => rfl⟩
  · exact ⟨(e2eeStart_held t).trans (e2eeRelPoll_held _), fun _ => rfl⟩
  · have hlegacy : Held C env false Q t { t with fallback := true } := .of_log rfl .refl rfl
    refine ⟨hlegacy.trans (e2eeWarn_held _ _), ?_⟩
    intro hr
    rw [h4] at hr
    cases hr
  · exact ⟨e2eeWarn_held t _, fun _ => rfl⟩
  · exact ⟨.refl t, fun _ => rfl⟩
  · have hset : Held C env false Q t (t.setE2ee { t.e2ee with noSessionNotified := true }) :=
      .of_log rfl (.notified .refl) rfl
    exact ⟨hset.trans (Held.emit (e := .event (.friendMessage undecryptable)) trivial fun _ => rfl),
      fun _ => rfl⟩

def fedSession (C : Crypto) (env : ChatEnv) (t : Chat) (message : Bytes) : TTSession :=
  (ttSessionFeed C t.e2ee env.ident (env.draws t.clock 0) message ttFrameDataMax).session

def Shows (C : Crypto) (t : Chat) (message : Bytes) : ChatEffect → Prop
  | .plain _ _ => False
  | .event (.friendMessage text) => text = undecryptable ∨ OpenedText C t.e2ee message text
  | _ => True

def Answers (C : Crypto) (env : ChatEnv) (t : Chat) (message : Bytes) (e : ChatEffect) : Prop :=
  e.Sealed C env.ident false (fedSession C env t message) ∧ Shows C t message e

theorem Allows.answers {message : Bytes} {e : ChatEffect} (h : Allows C env (fedSession C env t message) e) :
    Answers C env t message e := by
  refine ⟨h.1, ?_⟩
  have hc := h.2
  cases e with
  | plain type piece => exact hc
  | event ev =>
    cases ev with
    | friendMessage text => exact .inl hc
    | _ => trivial
  | _ => trivial

theorem e2eeRx_guards (hon : LayerOn env) (t : Chat) (message : Bytes) :
    Guards (Allows C env (fedSession C env t message)) t (e2eeRx C env t message).1 ∧
      ((e2eeRx C env t message).2.2 = false → (e2eeRx C env t message).1.required = t.required ∧
        (t.required = true → OpenedText C t.e2ee message (e2eeRx C env t message).2.1)) := by
  have hauth : ∀ b pt, (ttSessionFeed C t.e2ee env.ident (env.draws t.clock 0) message
      ttFrameDataMax).ret = .ok (b :: pt) → OpenedText C t.e2ee message (b :: pt) :=
    fun b pt h => ttSessionFeed_openedText h
  rw [e2eeRx, if_neg hon.friend, fedSession]
  generalize ttSessionFeed C t.e2ee env.ident (env.draws t.clock 0) message ttFrameDataMax = r at hauth ⊢
  obtain ⟨s, ret, handshaked⟩ := r
  dsimp only at hauth ⊢
  -- the frame is fed first, and what follows starts from there
  have hfed {u : Chat} (h : Guards (Allows C env (t.setE2ee s).tick.e2ee) (t.setE2ee s).tick u) :
      Guards (Allows C env s) t u := ⟨h.keeps, h.covert⟩
  by_cases hh : handshaked = true
  · rw [if_pos hh]
    refine ⟨hfed (rxHandshaked_guards hon _ _ _), ?_⟩
    rintro ⟨⟩
  · rw [if_neg hh]
    cases ret with
    | error e =>
      obtain ⟨herr, hconsumed⟩ : Held C env false (t.required = true) _ (rxError C env (t.setE2ee s).tick e).1 ∧ _ :=
        rxError_held (t.setE2ee s).tick e
      refine ⟨hfed herr.guards, fun hfalse => ⟨herr.required, fun hr => ?_⟩⟩
      dsimp only at hfalse
      rw [hconsumed hr] at hfalse
      cases hfalse
    | ok text =>
      have hpoll : Held C env false (t.required = true) (t.setE2ee s).tick (e2eeRelPoll C env (t.setE2ee s).tick) :=
        e2eeRelPoll_held _
      cases text with
      | nil =>
        refine ⟨hfed hpoll.guards, ?_⟩
        rintro ⟨⟩
      | cons b pt =>
        dsimp only
        split_ifs
        · exact ⟨hfed hpoll.guards, fun _ => ⟨hpoll.required, fun _ => hauth b pt rfl⟩⟩
        · have hstay : Held C env false (t.required = true) (t.setE2ee s).tick (t.setE2ee s).tick := .refl _
          refine ⟨hfed hstay.guards, ?_⟩
          rintro ⟨⟩

theorem cbFriendMessage_guards (hon : LayerOn env) (t : Chat) (message : Bytes) :
    Guards (Answers C env t message) t (cbFriendMessage C env true t message) := by
  obtain ⟨hrx, hpass⟩ := e2eeRx_guards (C := C) hon t message
  rw [cbFriendMessage, if_pos rfl, if_pos hon.mode]
  generalize e2eeRx C env t message = r at hrx hpass ⊢
  obtain ⟨t', text, consumed⟩ := r
  cases consumed with
  | true => exact hrx.mono fun _ => Allows.answers
  | false =>
    obtain ⟨hkeep, hauth⟩ := hpass rfl
    dsimp only at hkeep hauth hrx ⊢
    have hall := hrx.mono fun _ => Allows.answers
    refine ⟨hall.keeps, ?_⟩
    intro hr
    have hreq : t.required = true := by rwa [Chat.emit_required, hkeep, or_self] at hr
    exact (hall.emit (e := .event (.friendMessage text)) ⟨trivial, .inr (hauth hreq)⟩).covert (.inl hreq)

end

/-! ### Steps of the chat engine for one friend -/

inductive ChatOp
  | send (type : ToxMessageType) (text : Bytes)
  | receive (copied : Bool) (message : Bytes)
  | connection (online : Bool)
  | tick
  | flushAll (connected : Bool)
  | enforce (on : Bool)
  | delete
  -- whatever else the thread does to the session, and the time it takes
  | session (s : TTSession)
  | pass (clock : ℕ)

def cbFriendConnection (C : Crypto) (env : ChatEnv) (online : Bool) (t : Chat) : Chat :=
  if online then
    let t := if env.mode then { t with fallback := false, warned := false } else t
    let t := if t.oq.count > 0 ∧ t.oqFlushing = false then offlineFlushFriend C env t else t
    if env.mode ∧ t.e2ee.active = false ∧ t.e2ee.initPending = false ∧ t.e2ee.replyDue = false then
      e2eeStart C env t
    else t
  else t

def offlineFlushAll (C : Crypto) (env : ChatEnv) (connected : Bool) (t : Chat) : Chat :=
  let t' := { t with oqFlushing := true }
  let t' := if t'.oq.count > 0 ∧ connected then offlineFlushFriend C env t' else t'
  { t' with oqFlushing := false }

def handleCmdDeleteFriend (t : Chat) : Chat :=
  { t with
    oq := t.oq.takeAll.1, e2ee := .zero, required := false, fallback := false, handshakeAt := 0
    warned := false }

def chatStep (C : Crypto) (env : ChatEnv) (t : Chat) : ChatOp → Chat
  | .send type text => handleCmdSendMessage C env type text t
  | .receive copied message => cbFriendMessage C env copied t message
  | .connection online => cbFriendConnection C env online t
  | .tick => if env.mode then e2eeTick C env t else t
  | .flushAll connected => offlineFlushAll C env connected t
  -- `TT_CMD_E2EE_ENFORCE`
  | .enforce on => { t with required := on }
  | .delete => handleCmdDeleteFriend t
  | .session s => t.setE2ee s
  | .pass clock => { t with clock := clock }

def ChatOp.Clears : ChatOp → Prop
  | .enforce on => on = false
  | .delete => True
  | _ => False

/-- What a step may do while the policy demands encryption. -/
def Permits (C : Crypto) (env : ChatEnv) (t : Chat) : ChatOp → ChatEffect → Prop
  | .receive _ message => Answers C env t message
  | _ => Allows C env t.e2ee

/-- Once the policy demands encryption it stays until the user clears it. Until then all that toxcore is
given are frames the session sealed, and no text is shown that was not authenticated. -/
def NoDowngrade (C : Crypto) (env : ChatEnv) (t : Chat) (ops : List ChatOp) : Prop :=
  ∀ pre op, pre ++ [op] <+: ops → ¬ op.Clears →
    Guards (Permits C env (pre.foldl (chatStep C env) t) op) (pre.foldl (chatStep C env) t)
      (chatStep C env (pre.foldl (chatStep C env) t) op)

/-- A message that arrives while the policy demands encryption can be copied. -/
def Copied (t : Chat) : ChatOp → Prop
  | .receive copied _ => t.required = true → copied = true
  | _ => True

section

variable {C : Crypto} {env : ChatEnv}

theorem cbFriendConnection_held (hon : LayerOn env) (online : Bool) (t : Chat) :
    Held C env false (t.required = true) t (cbFriendConnection C env online t) := by
  have hflush {Q : Prop} (t : Chat) (hQ : Q → t.required = true) : Held C env false Q t
      (if t.oq.count > 0 ∧ t.oqFlushing = false then offlineFlushFriend C env t else t) := by
    split_ifs
    · exact offlineFlushFriend_held t fun hq => ⟨hon, hQ hq⟩
    · exact .refl t
  rw [cbFriendConnection, if_pos hon.mode]
  cases online with
  | false => exact .refl t
  | true =>
    have hcleared : Held C env false (t.required = true) t { t with fallback := false, warned := false } :=
      .of_log rfl .refl rfl
    rw [if_pos rfl]
    dsimp only
    have hsent := hcleared.trans (hflush _ id)
    split_ifs at hsent ⊢
    all_goals first | exact hsent | exact hsent.trans (e2eeStart_held _)

theorem offlineFlushAll_held (hon : LayerOn env) (connected : Bool) (t : Chat) :
    Held C env false (t.required = true) t (offlineFlushAll C env connected t) := by
  have hon' : Held C env false (t.required = true) t { t with oqFlushing := true } := .of_log rfl .refl rfl
  have hoff (u : Chat) : Held C env false (t.required = true) u { u with oqFlushing := false } :=
    .of_log rfl .refl rfl
  rw [offlineFlushAll]
  dsimp only
  split_ifs
  · exact (hon'.trans (offlineFlushFriend_held _ fun hr => ⟨hon, hr⟩)).trans (hoff _)
  · exact hon'.trans (hoff _)

theorem chatStep_guards (hon : LayerOn env) (t : Chat) {op : ChatOp} (hclear : ¬ op.Clears) (hok : Copied t op) :
    Guards (Permits C env t op) t (chatStep C env t op) := by
  cases op with
  | send type text => exact (handleCmdSendMessage_held hon type text t).guards
  | receive copied message =>
    cases copied with
    | true => exact cbFriendMessage_guards hon t message
    | false =>
      have hreq : t.required = false := by
        rw [← Bool.not_eq_true]
        intro hr
        exact Bool.noConfusion (hok hr)
      have hnot : (chatStep C env t (.receive false message)).required = false := hreq
      refine ⟨fun hr => absurd hr (by rw [hreq]; decide), fun hr => ?_⟩
      rw [hreq, hnot] at hr
      simp at hr
  | connection online =>
    apply Held.guards
    exact cbFriendConnection_held hon online t
  | tick =>
    apply Held.guards
    rw [chatStep, if_pos hon.mode]
    exact e2eeTick_held t
  | flushAll connected =>
    apply Held.guards
    exact offlineFlushAll_held hon connected t
  | enforce on =>
    have hon' : on = true := by simpa [ChatOp.Clears] using hclear
    exact ⟨fun _ => hon', fun _ => ⟨[], by simp [chatStep], by simp⟩⟩
  | delete => exact absurd trivial hclear
  | session s => exact ⟨fun hr => hr, fun _ => ⟨[], by simp [chatStep], by simp⟩⟩
  | pass clock =>
    have hclock : Held C env false (t.required = true) t { t with clock := clock } := .of_log rfl .refl rfl
    exact hclock.guards

/-- With the layer on and the friend in the list, nothing is downgraded in a run in which every
message that arrives while the policy demands encryption can be copied. -/
theorem no_downgrade (C : Crypto) (hon : LayerOn env) (t : Chat) (ops : List ChatOp)
    (hm : Machine.Meets (chatStep C env) Copied t ops) : NoDowngrade C env t ops := by
  rintro pre op ⟨rest, rfl⟩ hclear
  rw [List.append_assoc] at hm
  obtain ⟨-, hm⟩ := Machine.meets_append (P := fun _ => True) (fun _ _ _ _ => trivial) trivial hm
  exact chatStep_guards hon _ hclear hm.1

end

namespace Instance

theorem chatEnv_on : LayerOn chatEnv := ⟨rfl, by simp [chatEnv, aliceEnv]⟩

theorem rawText_shown : ¬ NoDowngrade crypto chatEnv blockedChat [.receive false [104, 105]] := by
  intro h
  have hguards := h [] (.receive false [104, 105]) (List.prefix_refl _) id
  obtain ⟨l, hl, hshows⟩ := hguards.covert (.inl rfl)
  have hlog : (chatStep crypto chatEnv blockedChat (.receive false [104, 105])).log =
      blockedChat.log ++ [.event (.friendMessage [104, 105])] := rfl
  rw [List.foldl_nil, hlog] at hl
  have hevent := List.append_cancel_left hl
  obtain hnotice | ⟨hactive, -⟩ := (hshows (.event (.friendMessage [104, 105])) (by rw [← hevent]; simp)).2
  · exact absurd hnotice (by decide)
  · cases hactive

end Instance

theorem no_downgrade_liveChat : Instance.liveChat.required = true ∧
    (chatStep Instance.crypto Instance.chatEnv Instance.liveChat (.send .normal [104])).log.length = 2 ∧
    NoDowngrade Instance.crypto Instance.chatEnv Instance.liveChat
      [.receive true [104, 105], .send .normal [104], .connection true] :=
  ⟨rfl, by decide +kernel, no_downgrade Instance.crypto Instance.chatEnv_on Instance.liveChat _
    ⟨fun _ => rfl, trivial, trivial, trivial⟩⟩

end TkTox
