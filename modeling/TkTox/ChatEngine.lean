import TkTox.EmitFrame
import TkTox.OfflineQueue

/-!
The chat half of `tox_thread.c`: how the thread drives one friend's session. The state holds
what the thread keeps for that friend; toxcore, the clock and the random source answer from an
environment, one answer for every tick of a counter that each such call advances.
-/

namespace TkTox

@[simp] abbrev ttE2eeFallbackTimeout : ℤ := 30
@[simp] abbrev ttE2eeChunk : ℕ := ttFrameDataMax

inductive ToxMessageType
  | normal
  | action
deriving DecidableEq, Repr

inductive ToxMessage
  | ok (mid : ℕ)
  | notConnected
  | other
deriving DecidableEq, Repr

/-- The bytes `[start, start + bytes.length)` of what is being sent. -/
structure Piece where
  start : ℕ
  bytes : Bytes
deriving DecidableEq, Repr

def Piece.stop (p : Piece) : ℕ := p.start + p.bytes.length

def Piece.places (p : Piece) : List ℕ := List.range' p.start p.bytes.length

inductive ChatEvent
  | friendMessage (text : Bytes)
  | messageSent (mid : ℕ)
  | e2eeState (established : Bool)
  | e2eeWarn (msg : String)
  | e2eeEnforce (on : Bool)
  | offlineFlushed (n : ℕ)
deriving DecidableEq, Repr

-- `frame` and `plain` are what toxcore took, a frame with the text it was made of where that is
-- the queue's; `stashed` and `queued` say where bytes went that are kept for later
inductive ChatEffect
  | frame (type : ToxMessageType) (f : Bytes) (piece : Option Piece)
  | refused (f : Bytes)
  | plain (type : ToxMessageType) (piece : Piece)
  | stashed (piece : Piece)
  | queued (piece : Piece)
  | event (ev : ChatEvent)
deriving DecidableEq, Repr

/-- `mode` is `tt_e2ee_mode`, `rounds` bounds the drain of the control frames. -/
structure ChatEnv where
  mode : Bool
  ident : TTE2EEEnv
  draws : ℕ → ℕ → Draws
  now : ℕ → ℤ
  message : ℕ → ToxMessage
  rounds : ℕ

structure Chat where
  e2ee : TTSession
  required : Bool
  fallback : Bool
  warned : Bool
  handshakeAt : ℤ
  oq : TTOqFriend
  oqFlushing : Bool
  clock : ℕ
  log : List ChatEffect

namespace Chat

def tick (t : Chat) : Chat := { t with clock := t.clock + 1 }

def emit (t : Chat) (e : ChatEffect) : Chat := { t with log := t.log ++ [e] }

def setE2ee (t : Chat) (s : TTSession) : Chat := { t with e2ee := s }

section

variable (t : Chat) (e : ChatEffect) (s : TTSession)

@[simp] theorem tick_e2ee : t.tick.e2ee = t.e2ee := rfl
@[simp] theorem tick_required : t.tick.required = t.required := rfl
@[simp] theorem tick_oq : t.tick.oq = t.oq := rfl
@[simp] theorem tick_clock : t.tick.clock = t.clock + 1 := rfl
@[simp] theorem tick_log : t.tick.log = t.log := rfl
@[simp] theorem emit_e2ee : (t.emit e).e2ee = t.e2ee := rfl
@[simp] theorem emit_required : (t.emit e).required = t.required := rfl
@[simp] theorem emit_oq : (t.emit e).oq = t.oq := rfl
@[simp] theorem emit_clock : (t.emit e).clock = t.clock := rfl
@[simp] theorem emit_log : (t.emit e).log = t.log ++ [e] := rfl
@[simp] theorem setE2ee_e2ee : (t.setE2ee s).e2ee = s := rfl
@[simp] theorem setE2ee_required : (t.setE2ee s).required = t.required := rfl
@[simp] theorem setE2ee_oq : (t.setE2ee s).oq = t.oq := rfl
@[simp] theorem setE2ee_clock : (t.setE2ee s).clock = t.clock := rfl
@[simp] theorem setE2ee_log : (t.setE2ee s).log = t.log := rfl

end

def since (t t' : Chat) : List ChatEffect := t'.log.drop t.log.length

end Chat

def TTOqFriend.put (fr : TTOqFriend) (text : Bytes) : TTOqFriend :=
  if cString text = [] then fr else fr.add text

def TTOqFriend.takeAll (fr : TTOqFriend) : TTOqFriend × List Bytes :=
  match fr.msgs with
  | none => (fr, [])
  | some _ => ({ fr with head := (fr.head + fr.count) % ttOqMaxPerFriend, count := 0 }, fr.messages)

section

variable (C : Crypto) (env : ChatEnv)

def e2eeWarn (t : Chat) (msg : String) : Chat :=
  if t.warned then t else ({ t with warned := true } : Chat).emit (.event (.e2eeWarn msg))

-- the result is the message id, 0 on failure
def e2eeSendFrame (t : Chat) (type : ToxMessageType) (f : Bytes) (piece : Option Piece) : Chat × ℕ :=
  match env.message t.clock with
  | .ok mid => (t.tick.emit (.frame type f piece), mid)
  | _ => (t.tick.emit (.refused f), 0)

theorem e2eeSendFrame_cases (t : Chat) (type : ToxMessageType) (f : Bytes) (piece : Option Piece) :
    (∃ mid, env.message t.clock = .ok mid ∧
      e2eeSendFrame env t type f piece = (t.tick.emit (.frame type f piece), mid)) ∨
    ((∀ mid, env.message t.clock ≠ .ok mid) ∧
      e2eeSendFrame env t type f piece = (t.tick.emit (.refused f), 0)) := by
  unfold e2eeSendFrame
  cases env.message t.clock with
  | ok mid => exact Or.inl ⟨mid, rfl, rfl⟩
  | notConnected => exact Or.inr ⟨by simp, rfl⟩
  | other => exact Or.inr ⟨by simp, rfl⟩

def e2eePushState (t : Chat) (established : Bool) : Chat :=
  t.emit (.event (.e2eeState established))

-- each round takes one stashed text, so their number bounds the loop
def e2eePump : ℕ → Chat → Chat
  | 0, t => t
  | n + 1, t =>
    let r := ttSessionFlush C t.e2ee ttFrameMax (env.draws t.clock 0)
    match r.2 with
    | .ok (b :: f) =>
      let sent := e2eeSendFrame env (t.setE2ee r.1) .normal (b :: f) none
      e2eePump n (if sent.2 = 0 then sent.1 else sent.1.emit (.event (.messageSent sent.2)))
    | _ => (t.setE2ee r.1).tick

def relPollLoop : ℕ → Chat → Chat
  | 0, t => t
  | n + 1, t =>
    match ttSessionRelPoll C t.e2ee ttFrameMax (env.draws t.clock) with
    | (s, b :: f) => relPollLoop n (e2eeSendFrame env (t.setE2ee s) .normal (b :: f) none).1
    | (s, []) => (t.setE2ee s).tick

def e2eeRelPoll (t : Chat) : Chat :=
  if env.ident.peerPk = none then t else relPollLoop C env env.rounds t

def e2eeTick (t : Chat) : Chat :=
  if env.ident.peerPk = none then t
  else
    let r := ttSessionTick C t.e2ee env.ident (env.draws t.clock 0) (env.now t.clock) ttFrameMax
    let t := match r.2 with
      | .ok (b :: f) => (e2eeSendFrame env (t.setE2ee r.1) .normal (b :: f) none).1
      | _ => (t.setE2ee r.1).tick
    e2eeRelPoll C env t

def e2eeStart (t : Chat) : Chat :=
  if env.ident.peerPk = none then t
  else
    let r := ttSessionStart C t.e2ee env.ident (env.draws t.clock 0) (env.now t.clock) ttFrameMax
    match r.2 with
    | .ok (b :: f) =>
      let t := (e2eeSendFrame env (t.setE2ee r.1) .normal (b :: f) none).1
      { t.tick with handshakeAt := env.now t.clock }
    | _ => (t.setE2ee r.1).tick

def e2eeFallbackDue (t : Chat) : Bool :=
  !t.e2ee.active && t.handshakeAt != 0 && decide (env.now t.clock - t.handshakeAt ≥ ttE2eeFallbackTimeout)

def chunksFrom : ℕ → ℕ → Bytes → List Piece
  | 0, _, _ => []
  | n + 1, start, rest =>
    if rest = [] then []
    else ⟨start, rest.take ttE2eeChunk⟩ ::
      chunksFrom n (start + ttE2eeChunk) (rest.drop ttE2eeChunk)

def textChunks (p : Piece) : List Piece := chunksFrom p.bytes.length p.start p.bytes

inductive ChunkAns
  | failed
  | stashed
  | sent
deriving DecidableEq, Repr

def sendChunk (t : Chat) (type : ToxMessageType) (p : Piece) : Chat × ChunkAns :=
  let r := ttSessionSend C t.e2ee p.bytes ttFrameMax (env.draws t.clock 0)
  match r.2 with
  | .error _ => ((t.setE2ee r.1).tick, .failed)
  | .ok [] => ((t.setE2ee r.1).tick.emit (.stashed p), .stashed)
  | .ok (b :: f) =>
    let sent := e2eeSendFrame env (t.setE2ee r.1) type (b :: f) (some p)
    (sent.1, if sent.2 = 0 then .failed else .sent)

def Chat.requeue (t : Chat) (p : Piece) : Chat :=
  ({ t with oq := t.oq.put p.bytes } : Chat).emit (.queued p)

def joinChunks (p : Piece) (ps : List Piece) : Piece := ⟨p.start, p.bytes ++ ps.flatMap Piece.bytes⟩

def flushText : List Piece → Chat → Chat × Bool
  | [], t => (t, true)
  | p :: ps, t =>
    match sendChunk C env t .normal p with
    | (t, .failed) => (t, false)
    | (t, .stashed) =>
      match ps with
      | [] => (t, true)
      | q :: qs => (t.requeue (joinChunks q qs), true)
    | (t, .sent) => flushText ps t

def flushTexts : List Piece → Chat → Chat
  | [], t => t
  | p :: ps, t =>
    match flushText C env (textChunks p) t with
    | (t, true) => flushTexts ps t
    | (t, false) => (p :: ps).foldl Chat.requeue t

def flushPlain : List Piece → Chat → Chat
  | [], t => t
  | p :: ps, t =>
    match env.message t.clock with
    | .notConnected => (p :: ps).foldl Chat.requeue t.tick
    | .ok mid => flushPlain ps ((t.tick.emit (.plain .normal p)).emit (.event (.messageSent mid)))
    | .other => flushPlain ps t.tick

def queueBlockedWarn : String :=
  "E2EE is required for this contact, but they do not support it — queued messages not sent."

def queuePlainWarn : String :=
  "This contact does not support end-to-end encryption — queued messages sent in plaintext."

def textPieces : ℕ → List Bytes → List Piece
  | _, [] => []
  | start, b :: bs => ⟨start, b⟩ :: textPieces (start + b.length) bs

def Chat.emptied (t : Chat) : Chat := { t with oq := t.oq.takeAll.1 }

def offlineFlushFriend (t : Chat) : Chat :=
  let texts := t.oq.takeAll.2
  let t := t.emptied
  if texts = [] then t
  else if env.mode ∧ env.ident.peerPk ≠ none then
    if e2eeFallbackDue env t then
      if t.required then e2eeWarn t queueBlockedWarn
      else (flushPlain env (textPieces 0 texts)
        (e2eeWarn { t with fallback := true } queuePlainWarn)).emit
          (.event (.offlineFlushed texts.length))
    else (flushTexts C env (textPieces 0 texts) t).emit (.event (.offlineFlushed texts.length))
  else (flushPlain env (textPieces 0 texts) t).emit (.event (.offlineFlushed texts.length))

def legacyWarn : String :=
  "This contact does not support end-to-end encryption — messages are sent in plaintext."

def legacyBlockedWarn : String :=
  "This contact does not support end-to-end encryption, but E2EE is required for them — plaintext messages are blocked."

def undecryptable : Bytes := ascii "[encrypted message could not be decrypted]"

def rxReply (t : Chat) : Chat :=
  let r := ttSessionReply C t.e2ee env.ident (env.draws t.clock 0) ttFrameMax
  match r.2 with
  | .ok (b :: f) => (e2eeSendFrame env (t.setE2ee r.1) .normal (b :: f) none).1
  | _ => (t.setE2ee r.1).tick

def rxEstablished (t : Chat) (wasActive : Bool) : Chat :=
  let t := { t with fallback := false }
  let t := if !wasActive && !t.required then
      ({ t with required := true } : Chat).emit (.event (.e2eeEnforce true))
    else t
  let t := e2eePump C env t.e2ee.pending.length t
  if t.oq.count > 0 ∧ t.oqFlushing = false then offlineFlushFriend C env t else t

def rxAnswer (t : Chat) (ret : Except TTE2EEStatus Bytes) : Chat :=
  match ret with
  | .ok [] => if t.e2ee.replyDue then rxReply C env t else t
  | _ => t

def rxHandshaked (t : Chat) (wasActive : Bool) (ret : Except TTE2EEStatus Bytes) : Chat :=
  let t := rxAnswer C env t ret
  let t := if t.e2ee.active then rxEstablished C env t wasActive else t
  if t.e2ee.active = wasActive then t else e2eePushState t t.e2ee.active

def rxError (t : Chat) (e : TTE2EEStatus) : Chat × Bool :=
  if e = .noSession then (e2eeStart C env t, true)
  else if e = .decodeFail ∨ e = .replay then
    -- a desync of a live session, or a legacy peer
    if t.e2ee.active then (e2eeRelPoll C env (e2eeStart C env t), true)
    else if t.required = false then (e2eeWarn { t with fallback := true } legacyWarn, false)
    else (e2eeWarn t legacyBlockedWarn, true)
  else if t.e2ee.noSessionNotified then (t, true)
  else
    ((t.setE2ee { t.e2ee with noSessionNotified := true }).emit
      (.event (.friendMessage undecryptable)), true)

/-- The result is the text of the event and whether the event was consumed. -/
def e2eeRx (t : Chat) (str : Bytes) : Chat × Bytes × Bool :=
  if env.ident.peerPk = none then (t, str, false)
  else
    let r := ttSessionFeed C t.e2ee env.ident (env.draws t.clock 0) str ttFrameDataMax
    let wasActive := t.e2ee.active
    let t := (t.setE2ee r.session).tick
    if r.handshaked then (rxHandshaked C env t wasActive r.ret, str, true)
    else match r.ret with
    | .ok [] => (e2eeRelPoll C env t, str, true)
    | .error e => ((rxError C env t e).1, str, (rxError C env t e).2)
    | .ok (b :: pt) =>
      if (b :: pt).length ≤ str.length then (e2eeRelPoll C env t, b :: pt, false)
      else (t, str, true)

def cbFriendMessage (copied : Bool) (t : Chat) (message : Bytes) : Chat :=
  if copied then
    if env.mode then
      match e2eeRx C env t message with
      | (t, _, true) => t
      | (t, text, false) => t.emit (.event (.friendMessage text))
    else t.emit (.event (.friendMessage message))
  else t.emit (.event (.friendMessage message))

end

end TkTox
