import TkTox.Machine
import TkTox.TunnelConn

/-!
The two ends of one forwarded connection: the slot of the client tunnel, the slot of the host
tunnel and the lossless packets on their way between them. The sessions of the encrypted
channel are shared with other traffic, so a step may set them to anything.
-/

namespace TkTox

inductive Side
  | client
  | host
deriving DecidableEq, Repr

instance : Fintype Side where
  elems := {.client, .host}
  complete i := by cases i <;> decide

def Side.other : Side → Side
  | .client => .host
  | .host => .client

@[simp] theorem Side.other_other (i : Side) : i.other.other = i := by cases i <;> rfl
@[simp] theorem Side.other_ne (i : Side) : i.other ≠ i := by cases i <;> decide
@[simp] theorem Side.ne_other (i : Side) : i ≠ i.other := by cases i <;> decide

section

variable (C : Crypto) (env : TunnelEnv)

def ttTunnelE2eeStart (io : Io) (fn : ℕ) : Io :=
  match io.tun with
  | none => io
  | some tun =>
    if (env.ident fn).peerPk = none then io
    else
      let r := ttSessionStart C (tun fn) (env.ident fn) (env.draws io.clock) (env.now io.clock)
        ttFrameMax
      let io := io.tick.setTun fn r.1
      match r.2 with
      | .ok (b :: f) => (ttTunnelE2eeSend env io fn ttTunnelE2eeSigPacketId (b :: f) none).1
      | _ => io

def e2eeReply (io : Io) (fn : ℕ) (s : TTSession) : Io :=
  let r := ttSessionReply C s (env.ident fn) (env.draws io.clock) ttFrameMax
  let io := io.tick.setTun fn r.1
  match r.2 with
  | .ok (b :: f) => (ttTunnelE2eeSend env io fn ttTunnelE2eeSigPacketId (b :: f) none).1
  | _ => io

/-- Feed one received tunnel frame; the result is the plaintext to forward. -/
def ttTunnelE2eeRx (io : Io) (fn : ℕ) (frame : Bytes) (lossy : Bool) : Io × Option Bytes :=
  match io.tun with
  | none => (io, none)
  | some tun =>
    if fn ≥ 256 ∨ (env.ident fn).peerPk = none then (io, none)
    else
      let r := ttSessionFeed C (tun fn) (env.ident fn) (env.draws io.clock) frame ttFrameDataMax
      let io := io.tick.setTun fn r.session
      match r.handshaked, r.ret with
      | true, .ok [] => (if r.session.replyDue then e2eeReply C env io fn r.session else io, none)
      | true, _ => (io, none)
      | false, .ok [] => (io, none)
      | false, .ok (b :: pt) => (io, some (b :: pt))
      | false, .error e =>
        -- a desync on the lossless channel: re-establish
        if lossy = false ∧ (e = .decodeFail ∨ e = .replay) ∧ r.session.active then
          (ttTunnelE2eeStart C env io fn, none)
        else (io, none)

/-- The tunnel branches of the lossless callback: the packet for `tt_tunnel_rx_tcp`, if any. -/
def cbFriendLosslessPacket (io : Io) (fn : ℕ) : Bytes → Io × Option Bytes
  | [] => (io, none)
  | id :: rest =>
    if id = ttTunnelE2eeSigPacketId ∨ id = ttTunnelE2eeTcpPacketId then
      match rest with
      | [] => (io, none)
      | ver :: frame =>
        if ver = ttTunnelE2eeVersion then ttTunnelE2eeRx C env io fn frame false else (io, none)
    else if id = ttTunnelTcpPacketId ∨ id = ttTunnelSigPacketId then (io, some (id :: rest))
    else (io, none)

end

structure TcpHead where
  portIdx : ℕ
  connid : ℕ
  opcode : UInt8
  payload : Bytes
deriving DecidableEq, Repr

def parseTcp : Bytes → Option TcpHead
  | id :: ver :: port :: hi :: lo :: opcode :: payload =>
    if id = ttTunnelTcpPacketId ∧ ver = ttTunnelTcpVersion then
      some ⟨port.toNat, hi.toNat * 256 + lo.toNat, opcode, payload⟩
    else none
  | _ => none

theorem parseTcp_pack (f : TcpFrame) (hp : f.portIdx < 256) (hc : f.connid < 2 ^ 16) :
    parseTcp f.pack = some ⟨f.portIdx, f.connid, f.op.toByte, f.payload⟩ := by
  have h1 : f.portIdx % 256 = f.portIdx := Nat.mod_eq_of_lt hp
  have h2 : f.connid / 256 % 256 * 256 + f.connid % 256 = f.connid := by omega
  simp [TcpFrame.pack, parseTcp, u16be, h1, h2]

/-- The connection as both ends were set up: each side's number for the other, the port and the
id of the connection, the port lists and the server. `full` says whether the host's table has no
free slot at a tick. -/
structure LinkCfg where
  env : Side → TunnelEnv
  fn : Side → ℕ
  portIdx : ℕ
  connid : ℕ
  tcp : TTPortRangeList
  tcpLocal : TTPortRangeList
  server : Bytes
  full : ℕ → Bool
  portIdx_lt : portIdx < 256
  portIdx_local : portIdx < ttPortListLen tcpLocal
  connid_lt : connid < 2 ^ 16

structure LinkPacket where
  pkt : Bytes
  frame : Option TcpFrame
deriving DecidableEq, Repr

/-- `chan i` holds the packets on their way to side `i`, `log i` everything side `i` did. -/
structure Link where
  io : Side → Io
  conn : Side → TTTunnelConn
  chan : Side → List LinkPacket
  log : Side → List TunnelEffect
  accepted : Bool

def TunnelEffect.packet : TunnelEffect → Option LinkPacket
  | .lossless _ pkt frame => some ⟨pkt, frame⟩
  | _ => none

def Io.clear (io : Io) : Io := { io with log := [] }

def Link.act (w : Link) (i : Side) (g : Io → TTTunnelConn → Io × TTTunnelConn) : Link :=
  let r := g (w.io i).clear (w.conn i)
  let new := r.1.log.map Prod.snd
  { w with
    io := Function.update w.io i r.1.clear
    conn := Function.update w.conn i r.2
    chan := Function.update w.chan i.other (w.chan i.other ++ new.filterMap TunnelEffect.packet)
    log := Function.update w.log i (w.log i ++ new) }

def Link.popped (w : Link) (i : Side) (rest : List LinkPacket) : Link :=
  { w with chan := Function.update w.chan i rest }

inductive LinkOp
  | accept (fd : ℕ)
  | poll (i : Side)
  | retry (i : Side)
  | deliver (i : Side)
  | session (i : Side) (tun : ℕ → TTSession)

section

variable (C : Crypto) (cfg : LinkCfg)

def acceptConn (fd : ℕ) (io : Io) (c : TTTunnelConn) : Io × TTTunnelConn :=
  (tcpSend C (cfg.env .client) io (cfg.fn .client) ⟨cfg.portIdx, cfg.connid, .open, []⟩,
    { connAlloc c with
      fn := cfg.fn .client, portIdx := cfg.portIdx, connid := cfg.connid, sock := some fd })

def rxHost (h : TcpHead) (io : Io) (c : TTTunnelConn) : Io × TTTunnelConn :=
  if h.connid ≠ cfg.connid then (io, c)
  else
    match TTTcpOp.ofByte h.opcode with
    | none => (io, c)
    | some op =>
      if c.Matches (cfg.fn .host) h.connid then
        rxHostConn C (cfg.env .host) io c op h.payload
      else if op = .open ∧ c.used = false then
        if cfg.full io.clock then
          (tcpSend C (cfg.env .host) io.tick (cfg.fn .host) ⟨h.portIdx, h.connid, .openFail, []⟩, c)
        else hostOpenSlot C (cfg.env .host) cfg.tcp cfg.server io.tick c (cfg.fn .host) h.portIdx h.connid
      else (io, c)

def rxClient (h : TcpHead) (io : Io) (c : TTTunnelConn) : Io × TTTunnelConn :=
  if h.portIdx ≥ ttPortListLen cfg.tcpLocal then (io, c)
  else
    match TTTcpOp.ofByte h.opcode with
    | none => (io, c)
    | some op =>
      if c.Matches (cfg.fn .client) h.connid then
        rxClientConn C (cfg.env .client) io c op h.payload
      else (io, c)

def rxSide : Side → TcpHead → Io → TTTunnelConn → Io × TTTunnelConn
  | .client => rxClient C cfg
  | .host => rxHost C cfg

def deliverConn (i : Side) (pkt : Bytes) (io : Io) (c : TTTunnelConn) : Io × TTTunnelConn :=
  let r := cbFriendLosslessPacket C (cfg.env i) io (cfg.fn i) pkt
  match r.2.bind parseTcp with
  | none => (r.1, c)
  | some h => rxSide C cfg i h r.1 c

def pollConn : Side → Io → TTTunnelConn → Io × TTTunnelConn
  | .client => pollServe C (cfg.env .client)
  | .host => pollHostConn C (cfg.env .host)

def linkStep (w : Link) : LinkOp → Link
  -- one connection: a later accept has another id
  | .accept fd =>
    if w.accepted then w else { w.act .client (acceptConn C cfg fd) with accepted := true }
  | .poll i => w.act i (pollConn C cfg i)
  -- the host has its retry loop only when the channel is encrypted
  | .retry i =>
    if i = .host ∧ (w.io i).tun = none then w else w.act i (pollRetryConn C (cfg.env i))
  | .deliver i =>
    match w.chan i with
    | [] => w
    | p :: rest => (w.popped i rest).act i (deliverConn C cfg i p.pkt)
  | .session i tun =>
    { w with io := Function.update w.io i { w.io i with tun := (w.io i).tun.map fun _ => tun } }

end

def Link.start (tun : Side → Option (ℕ → TTSession)) : Link where
  io i := ⟨tun i, 0, 0, []⟩
  conn _ := .zero
  chan _ := []
  log _ := []
  accepted := false

def Link.Opens (C : Crypto) (cfg : LinkCfg) (w : Link) (i : Side) : Prop :=
  ∀ p ∈ (w.chan i).head?,
    (cbFriendLosslessPacket C (cfg.env i) (w.io i).clear (cfg.fn i) p.pkt).2 = p.frame.map TcpFrame.pack

instance (C : Crypto) (cfg : LinkCfg) (w : Link) (i : Side) : Decidable (w.Opens C cfg i) :=
  inferInstanceAs (Decidable (∀ p ∈ (w.chan i).head?, _))

end TkTox
