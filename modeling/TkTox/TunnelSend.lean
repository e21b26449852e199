import TkTox.EmitFrame

/-!
The sending side of `tunnel.c`: the TCP frames of the lossless channel, the re-key carriers
that go before them and `tcp_send_ex`. Toxcore, the sockets and the random source are answers
of the environment, one for every tick of a clock that each such call advances, so that a
result over every environment is a result over every pattern of refusals and partial writes.
-/

namespace TkTox

@[simp] abbrev ttTunnelPacketId : UInt8 := 200
@[simp] abbrev ttTunnelVersion : UInt8 := 1
@[simp] abbrev ttTunnelTcpPacketId : UInt8 := 162
@[simp] abbrev ttTunnelTcpVersion : UInt8 := 1
@[simp] abbrev ttTunnelSigPacketId : UInt8 := 163
@[simp] abbrev ttTunnelE2eeSigPacketId : UInt8 := 164
@[simp] abbrev ttTunnelE2eeTcpPacketId : UInt8 := 165
@[simp] abbrev ttTunnelE2eeUdpPacketId : UInt8 := 201
@[simp] abbrev ttTunnelE2eeVersion : UInt8 := 1
@[simp] abbrev ttTunnelMaxDatagram : ℕ := 1370
@[simp] abbrev ttTunnelTcpMaxPayload : ℕ := 1367
@[simp] abbrev ttTunnelE2eeFrameMax : ℕ := 1371
@[simp] abbrev ttTunnelE2eeMaxDatagram : ℕ := 1315
@[simp] abbrev ttTunnelE2eeTcpMaxPayload : ℕ := 1312
@[simp] abbrev ttTunnelTcpWindow : ℕ := 16
@[simp] abbrev ttTunnelAckBatch : ℕ := 4
@[simp] abbrev ttTunnelPendMax : ℕ := 131072

inductive TTTcpOp
  | open
  | openAck
  | openFail
  | data
  | fin
  | ack
deriving DecidableEq, Repr

def TTTcpOp.toByte : TTTcpOp → UInt8
  | .open => 1
  | .openAck => 2
  | .openFail => 3
  | .data => 4
  | .fin => 5
  | .ack => 6

def TTTcpOp.ofByte (b : UInt8) : Option TTTcpOp :=
  if b = 1 then some .open
  else if b = 2 then some .openAck
  else if b = 3 then some .openFail
  else if b = 4 then some .data
  else if b = 5 then some .fin
  else if b = 6 then some .ack
  else none

@[simp] theorem TTTcpOp.ofByte_toByte (op : TTTcpOp) : TTTcpOp.ofByte op.toByte = some op := by
  cases op <;> rfl

structure TcpFrame where
  portIdx : ℕ
  connid : ℕ
  op : TTTcpOp
  payload : Bytes
deriving DecidableEq, Repr

def TcpFrame.pack (f : TcpFrame) : Bytes :=
  [ttTunnelTcpPacketId, ttTunnelTcpVersion, UInt8.ofNat f.portIdx] ++ u16be f.connid ++
    [f.op.toByte] ++ f.payload

inductive ToxSent
  | ok
  | sendq
  | other
deriving DecidableEq, Repr

inductive RecvAns
  | data (b : Bytes)
  | again
  | error
deriving DecidableEq, Repr

inductive ConnectAns
  | done
  | inProgress
  | failed
deriving DecidableEq, Repr

/-- The answers of everything outside the engine, by the tick of the call. -/
structure TunnelEnv where
  ident : ℕ → TTE2EEEnv
  draws : ℕ → Draws
  now : ℕ → ℤ
  custom : ℕ → ToxSent
  recv : ℕ → RecvAns
  sender : ℕ → ℕ
  taken : ℕ → ℕ
  socket : ℕ → Option ℕ
  resolve : ℕ → Bytes → ℕ → Option ℕ
  connect : ℕ → ConnectAns
  soError : ℕ → Option Bool
  accept : ℕ → Option ℕ
  friendByPk : Key → Option ℕ

-- `lossless` is a packet toxcore took, with the TCP frame it was built from, if any, and `lossy`
-- one with its datagram; `refused` is a TCP frame that was not handed over; `wrote` has the bytes
-- offered to a socket and how many of them it took
inductive TunnelEffect
  | lossless (fn : ℕ) (pkt : Bytes) (frame : Option TcpFrame)
  | refused (fn : ℕ) (frame : TcpFrame)
  | lossy (fn : ℕ) (pkt : Bytes) (portIdx : ℕ) (b : Bytes)
  | connect (fn : ℕ) (sock : ℕ) (addr : ℕ)
  | udpOpen (fn : ℕ) (sock : ℕ) (addr : ℕ)
  | toServer (fn : ℕ) (sock : ℕ) (addr : ℕ) (b : Bytes)
  | toLocal (sock : ℕ) (addr : ℕ) (b : Bytes)
  | read (fn : ℕ) (sock : ℕ) (b : Bytes)
  | wrote (fn : ℕ) (sock : ℕ) (b : Bytes) (taken : ℕ)
deriving DecidableEq, Repr

/-- The part of the thread state that every call works on: the tunnel sessions (absent when the
E2EE channel is off), the clock, and the effects so far, each with the tunnel slot it is for. -/
structure Io where
  tun : Option (ℕ → TTSession)
  clock : ℕ
  owner : ℕ
  log : List (ℕ × TunnelEffect)

namespace Io

def tick (io : Io) : Io := { io with clock := io.clock + 1 }

def emit (io : Io) (e : TunnelEffect) : Io := { io with log := io.log ++ [(io.owner, e)] }

def setTun (io : Io) (fn : ℕ) (s : TTSession) : Io :=
  { io with tun := io.tun.map fun t => Function.update t fn s }

@[simp] theorem tick_tun (io : Io) : io.tick.tun = io.tun := rfl
@[simp] theorem tick_log (io : Io) : io.tick.log = io.log := rfl
@[simp] theorem tick_owner (io : Io) : io.tick.owner = io.owner := rfl
@[simp] theorem emit_tun (io : Io) (e : TunnelEffect) : (io.emit e).tun = io.tun := rfl
@[simp] theorem emit_clock (io : Io) (e : TunnelEffect) : (io.emit e).clock = io.clock := rfl
@[simp] theorem emit_owner (io : Io) (e : TunnelEffect) : (io.emit e).owner = io.owner := rfl
@[simp] theorem emit_log (io : Io) (e : TunnelEffect) :
    (io.emit e).log = io.log ++ [(io.owner, e)] := rfl
@[simp] theorem setTun_clock (io : Io) (fn : ℕ) (s : TTSession) :
    (io.setTun fn s).clock = io.clock := rfl
@[simp] theorem setTun_log (io : Io) (fn : ℕ) (s : TTSession) : (io.setTun fn s).log = io.log := rfl
@[simp] theorem setTun_owner (io : Io) (fn : ℕ) (s : TTSession) :
    (io.setTun fn s).owner = io.owner := rfl
@[simp] theorem setTun_tun (io : Io) (fn : ℕ) (s : TTSession) :
    (io.setTun fn s).tun = io.tun.map fun t => Function.update t fn s := rfl

def Live (io : Io) (fn : ℕ) : Prop := ∀ t ∈ io.tun, (t fn).active = true

instance (io : Io) (fn : ℕ) : Decidable (io.Live fn) :=
  inferInstanceAs (Decidable (∀ t ∈ io.tun, (t fn).active = true))

end Io

inductive TTSend
  | ok
  | sendq
  | fatal
deriving DecidableEq, Repr

variable (C : Crypto) (env : TunnelEnv)

def ttTunnelE2eeSend (io : Io) (fn : ℕ) (id : UInt8) (frame : Bytes) (what : Option TcpFrame) :
    Io × Bool :=
  if frame.length > ttTunnelE2eeFrameMax then (io, false)
  else if env.custom io.clock = .ok then
    (io.tick.emit (.lossless fn (id :: ttTunnelE2eeVersion :: frame) what), true)
  else (io.tick, false)

def carrierFlush (fn : ℕ) : ℕ → Io → TTSession → Io × TTSession × Bool
  | 0, io, s => (io, s, true)
  | n + 1, io, s =>
    if ttSessionCarrierPending s = false ∧ ttSessionRekeyPending s = false then (io, s, true)
    else
      let r := ttSessionCarrier C s ttFrameMax (env.draws io.clock)
      match r.2 with
      | .ok (b :: frame) =>
        let sent := ttTunnelE2eeSend env io.tick fn ttTunnelE2eeTcpPacketId (b :: frame) none
        if sent.2 then carrierFlush fn n sent.1 (ttSessionCarrierDone r.1)
        else (sent.1, r.1, false)
      | _ => (io.tick, r.1, true)

def tunnelCarrierRetry (io : Io) (fn : ℕ) : Io × Bool :=
  match io.tun with
  | none => (io, false)
  | some tun =>
    if fn ≥ 256 ∨ (tun fn).active = false then (io, false)
    else
      let r := carrierFlush C env fn 2 io (tun fn)
      (r.1.setTun fn r.2.1, ttSessionCarrierPending r.2.1)

def tcpSendSealed (io : Io) (fn : ℕ) (s : TTSession) (f : TcpFrame) : Io × TTSend :=
  let r := ttSessionSendLossy C s f.pack ttFrameMax (env.draws io.clock)
  let io := io.tick.setTun fn r.1
  match r.2 with
  | .ok [] => (io.emit (.refused fn f), .ok)
  | .ok (b :: frame) =>
    let sent := ttTunnelE2eeSend env io fn ttTunnelE2eeTcpPacketId (b :: frame) (some f)
    if sent.2 then (sent.1, .ok) else (sent.1.emit (.refused fn f), .sendq)
  | .error .carrier => (io.emit (.refused fn f), .sendq)
  | .error _ => (io.emit (.refused fn f), .fatal)

def tcpSendEx (io : Io) (fn : ℕ) (f : TcpFrame) : Io × TTSend :=
  if f.payload.length > ttTunnelTcpMaxPayload then (io.emit (.refused fn f), .fatal)
  else
    match io.tun with
    | some tun =>
      if f.payload.length > ttTunnelE2eeTcpMaxPayload then (io.emit (.refused fn f), .fatal)
      -- drop until the handshake completes
      else if (tun fn).active = false then (io.emit (.refused fn f), .ok)
      else
        let r := carrierFlush C env fn 2 io (tun fn)
        if r.2.2 = false ∨ ttSessionCarrierPending r.2.1 then
          ((r.1.setTun fn r.2.1).emit (.refused fn f), .sendq)
        else tcpSendSealed C env r.1 fn r.2.1 f
    | none =>
      match env.custom io.clock with
      | .ok => (io.tick.emit (.lossless fn f.pack (some f)), .ok)
      | .sendq => (io.tick.emit (.refused fn f), .sendq)
      | .other => (io.tick.emit (.refused fn f), .fatal)

def tcpSend (io : Io) (fn : ℕ) (f : TcpFrame) : Io := (tcpSendEx C env io fn f).1

def connReadMax (io : Io) : ℕ :=
  if io.tun.isSome then ttTunnelE2eeTcpMaxPayload else ttTunnelTcpMaxPayload

def IsCarrier (fn : ℕ) (e : TunnelEffect) : Prop := ∃ pkt, e = .lossless fn pkt none

structure Io.Logs (io io' : Io) (new : List TunnelEffect) : Prop where
  log_eq : io'.log = io.log ++ new.map (Prod.mk io.owner)
  owner_eq : io'.owner = io.owner
  isSome_eq : io'.tun.isSome = io.tun.isSome

structure Io.Does (io io' : Io) (fn : ℕ) (new : List TunnelEffect) : Prop
    extends Io.Logs io io' new where
  live : io.Live fn → io'.Live fn

theorem Io.Logs.trans {io io' io'' : Io} {l l' : List TunnelEffect} (h : io.Logs io' l)
    (h' : io'.Logs io'' l') : io.Logs io'' (l ++ l') where
  log_eq := by rw [h'.log_eq, h.log_eq, h.owner_eq, List.map_append, List.append_assoc]
  owner_eq := h'.owner_eq.trans h.owner_eq
  isSome_eq := h'.isSome_eq.trans h.isSome_eq

theorem Io.Does.refl (io : Io) (fn : ℕ) : io.Does io fn [] where
  log_eq := by simp
  owner_eq := rfl
  isSome_eq := rfl
  live h := h

theorem Io.Does.trans {io io' io'' : Io} {fn : ℕ} {l l' : List TunnelEffect}
    (h : io.Does io' fn l) (h' : io'.Does io'' fn l') : io.Does io'' fn (l ++ l') where
  toLogs := h.toLogs.trans h'.toLogs
  live hl := h'.live (h.live hl)

theorem Io.Does.tick (io : Io) (fn : ℕ) : io.Does io.tick fn [] where
  log_eq := by simp
  owner_eq := rfl
  isSome_eq := rfl
  live h := h

theorem Io.Does.emit (io : Io) (fn : ℕ) (e : TunnelEffect) :
    io.Does (io.emit e) fn [e] where
  log_eq := rfl
  owner_eq := rfl
  isSome_eq := rfl
  live h := h

theorem Io.Logs.setTun (io : Io) (fn : ℕ) (s : TTSession) : io.Logs (io.setTun fn s) [] where
  log_eq := by simp
  owner_eq := rfl
  isSome_eq := by simp

theorem Io.Does.setTun {io : Io} {fn : ℕ} {s : TTSession} (hs : io.Live fn → s.active = true) :
    io.Does (io.setTun fn s) fn [] where
  toLogs := Io.Logs.setTun io fn s
  live hl := by
    intro t ht
    obtain ⟨t₀, -, rfl⟩ := Option.map_eq_some_iff.mp ht
    simpa using hs hl

theorem ttTunnelE2eeSend_spec (io : Io) (fn : ℕ) (id : UInt8) (frame : Bytes)
    (what : Option TcpFrame) :
    io.Does (ttTunnelE2eeSend env io fn id frame what).1 fn
      (if (ttTunnelE2eeSend env io fn id frame what).2 then
        [.lossless fn (id :: ttTunnelE2eeVersion :: frame) what] else []) := by
  unfold ttTunnelE2eeSend
  by_cases hl : frame.length > ttTunnelE2eeFrameMax
  · rw [if_pos hl]
    exact Io.Does.refl io fn
  rw [if_neg hl]
  by_cases ha : env.custom io.clock = .ok
  · rw [if_pos ha]
    exact (Io.Does.tick io fn).trans (Io.Does.emit io.tick fn _)
  · rw [if_neg ha]
    exact Io.Does.tick io fn

theorem ttSessionCarrier_active (s : TTSession) (cap : ℕ) (ρ : Draws) :
    (ttSessionCarrier C s cap ρ).1.active = s.active := by
  unfold ttSessionCarrier
  split_ifs
  · rfl
  · rfl
  · rfl
  · rfl
  · exact (emitFrame_pending C s _ cap true ρ).1

theorem ttSessionSendLossy_active (s : TTSession) (text : Bytes) (cap : ℕ) (ρ : Draws) :
    (ttSessionSendLossy C s text cap ρ).1.active = s.active := by
  unfold ttSessionSendLossy
  split_ifs
  · rfl
  · rfl
  · exact (emitFrame_pending C s _ cap false ρ).1

theorem ttSessionSendLossy_ne_nil {s : TTSession} (hs : s.active = true) (text : Bytes) (cap : ℕ)
    (ρ : Draws) : (ttSessionSendLossy C s text cap ρ).2 ≠ .ok [] := by
  unfold ttSessionSendLossy
  split_ifs with hl ha
  · simp
  · simp [hs] at ha
  · obtain ⟨-, -, h⟩ | ⟨-, -, h⟩ | ⟨-, f, he, h⟩ := emitFrame_cases C s (fun _ => text) cap false ρ
    · rw [h]
      simp
    · rw [h]
      simp
    · rw [h]
      intro hf
      exact (emitEncode_length_le he).2.2 (Except.ok.inj hf)

theorem carrierFlush_spec (fn : ℕ) (n : ℕ) (io : Io) (s : TTSession) :
    (∃ l, io.Does (carrierFlush C env fn n io s).1 fn l ∧ (∀ e ∈ l, IsCarrier fn e)) ∧
      (carrierFlush C env fn n io s).2.1.active = s.active := by
  induction n generalizing io s with
  | zero => exact ⟨⟨[], Io.Does.refl io fn, by simp⟩, rfl⟩
  | succ n ih =>
    unfold carrierFlush
    split_ifs with hp
    · exact ⟨⟨[], Io.Does.refl io fn, by simp⟩, rfl⟩
    have ha := ttSessionCarrier_active C s ttFrameMax (env.draws io.clock)
    dsimp only
    split
    · rename_i b frame hr
      have hsent := ttTunnelE2eeSend_spec env io.tick fn ttTunnelE2eeTcpPacketId (b :: frame) none
      split_ifs with hok
      · obtain ⟨⟨l, hg, hl⟩, hact⟩ := ih
          (ttTunnelE2eeSend env io.tick fn ttTunnelE2eeTcpPacketId (b :: frame) none).1
          (ttSessionCarrierDone (ttSessionCarrier C s ttFrameMax (env.draws io.clock)).1)
        rw [if_pos hok] at hsent
        refine ⟨⟨_, ((Io.Does.tick io fn).trans hsent).trans hg, ?_⟩, hact.trans ha⟩
        intro e he
        simp only [List.nil_append, List.cons_append, List.mem_cons] at he
        rcases he with rfl | he
        · exact ⟨_, rfl⟩
        · exact hl e he
      · rw [if_neg hok] at hsent
        exact ⟨⟨_, (Io.Does.tick io fn).trans hsent, by simp⟩, ha⟩
    · exact ⟨⟨_, Io.Does.tick io fn, by simp⟩, ha⟩

structure TcpSendSpec (io : Io) (fn : ℕ) (f : TcpFrame) (r : Io × TTSend) : Prop where
  grows : ∃ l, (∀ e ∈ l, IsCarrier fn e) ∧
    ((r.2 = .ok ∧ ∃ pkt, (io.tun = none → pkt = f.pack) ∧
        io.Does r.1 fn (l ++ [.lossless fn pkt (some f)])) ∨
      ((io.Live fn → r.2 ≠ .ok) ∧ io.Does r.1 fn (l ++ [.refused fn f])))

theorem TcpSendSpec.refuse {io io' : Io} {fn : ℕ} {f : TcpFrame} {res : TTSend}
    {l : List TunnelEffect} (hg : io.Does io' fn l) (hl : ∀ e ∈ l, IsCarrier fn e)
    (hr : io.Live fn → res ≠ .ok) : TcpSendSpec io fn f (io'.emit (.refused fn f), res) := by
  exact ⟨⟨l, hl, Or.inr ⟨hr, hg.trans (Io.Does.emit io' fn (.refused fn f))⟩⟩⟩

theorem tcpSendSealed_spec {io₀ io : Io} {fn : ℕ} {s : TTSession} (f : TcpFrame)
    {l : List TunnelEffect} (hg : io₀.Does io fn l) (hl : ∀ e ∈ l, IsCarrier fn e)
    (hs : s.active = true) (htun : io₀.tun ≠ none) :
    TcpSendSpec io₀ fn f (tcpSendSealed C env io fn s f) := by
  have hact := (ttSessionSendLossy_active C s f.pack ttFrameMax (env.draws io.clock)).trans hs
  have hnil := ttSessionSendLossy_ne_nil C hs f.pack ttFrameMax (env.draws io.clock)
  have hg' := hg.trans ((Io.Does.tick io fn).trans (Io.Does.setTun fun _ => hact))
  rw [List.append_nil, List.append_nil] at hg'
  unfold tcpSendSealed
  dsimp only
  split
  · contradiction
  · rename_i b frame hr
    have hsent := ttTunnelE2eeSend_spec env (io.tick.setTun fn
      (ttSessionSendLossy C s f.pack ttFrameMax (env.draws io.clock)).1) fn
      ttTunnelE2eeTcpPacketId (b :: frame) (some f)
    split_ifs with hok
    · rw [if_pos hok] at hsent
      have h := hg'.trans hsent
      exact ⟨⟨l, hl, Or.inl ⟨rfl, _, fun h => absurd h htun, h⟩⟩⟩
    · rw [if_neg hok] at hsent
      have h := hg'.trans hsent
      rw [List.append_nil] at h
      exact TcpSendSpec.refuse h hl (by simp)
  · exact TcpSendSpec.refuse hg' hl (by simp)
  · exact TcpSendSpec.refuse hg' hl (by simp)

theorem tcpSendEx_spec (io : Io) (fn : ℕ) (f : TcpFrame) :
    TcpSendSpec io fn f (tcpSendEx C env io fn f) := by
  unfold tcpSendEx
  by_cases hp : f.payload.length > ttTunnelTcpMaxPayload
  · rw [if_pos hp]
    exact TcpSendSpec.refuse (Io.Does.refl io fn) (by simp) (by simp)
  rw [if_neg hp]
  split
  · rename_i tun htun
    split_ifs with hq ha
    · exact TcpSendSpec.refuse (Io.Does.refl io fn) (by simp) (by simp)
    · refine TcpSendSpec.refuse (Io.Does.refl io fn) (by simp) ?_
      intro hlive
      rw [hlive tun htun] at ha
      contradiction
    have ha' : (tun fn).active = true := by simpa using ha
    obtain ⟨⟨l, hg, hl⟩, hact⟩ := carrierFlush_spec C env fn 2 io (tun fn)
    dsimp only
    by_cases hc : (carrierFlush C env fn 2 io (tun fn)).2.2 = false ∨
        ttSessionCarrierPending (carrierFlush C env fn 2 io (tun fn)).2.1 = true
    · rw [if_pos hc]
      have h := hg.trans (Io.Does.setTun fun _ => hact.trans ha')
      rw [List.append_nil] at h
      exact TcpSendSpec.refuse h hl (by simp)
    · rw [if_neg hc]
      exact tcpSendSealed_spec C env f hg hl (hact.trans ha') (by simp [htun])
  · rename_i htun
    have ht := Io.Does.tick io fn
    split
    · exact ⟨⟨[], by simp, Or.inl ⟨rfl, f.pack, fun _ => rfl, ht.trans (Io.Does.emit io.tick fn _)⟩⟩⟩
    · exact TcpSendSpec.refuse ht (by simp) (by simp)
    · exact TcpSendSpec.refuse ht (by simp) (by simp)

end TkTox
