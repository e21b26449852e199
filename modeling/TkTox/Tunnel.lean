import TkTox.TunnelLink

/-!
A tunnel of `tunnel.c`: its allowlist, sockets and connections, what a poll does with them and what
the tunnel does with a received packet it is offered.
-/

namespace TkTox

@[simp] abbrev ttTunnelMaxTunnels : ℕ := 16
@[simp] abbrev ttTunnelMaxConns : ℕ := 64
@[simp] abbrev ttTunnelMaxPorts : ℕ := 32
@[simp] abbrev ttTunnelAllowMax : ℕ := 64
@[simp] abbrev ttMaxFriends : ℕ := 256
@[simp] abbrev ttTunnelPendingTimeout : ℤ := 60

@[simp] abbrev noFriend : ℕ := 2 ^ 32 - 1

structure TTTunnelAllow where
  used : Bool
  pk : Key
  fn : ℕ

structure TTTunnelSock where
  used : Bool
  fn : ℕ
  portIdx : ℕ
  sock : Option ℕ
  srv : ℕ
deriving DecidableEq, Repr

def TTTunnelSock.zero : TTTunnelSock := ⟨false, 0, 0, none, 0⟩

structure TTTunnel where
  id : ℕ
  host : Bool
  pending : Bool
  pendingSince : ℤ
  peerFn : ℕ
  peerPk : Key
  serverHost : Bytes
  udp : TTPortRangeList
  tcp : TTPortRangeList
  allow : Fin ttTunnelAllowMax → TTTunnelAllow
  socks : ℕ → TTTunnelSock
  conns : Fin ttTunnelMaxConns → TTTunnelConn
  listenSock : ℕ → Option ℕ
  tcpListenSock : ℕ → Option ℕ
  udpLocal : TTPortRangeList
  tcpLocal : TTPortRangeList
  peer : ℕ → ℕ
  peerSet : ℕ → Bool
  nextConnid : ℕ

namespace TTTunnel

variable (tn : TTTunnel)

def Allowed (fn : ℕ) : Prop := ∃ k, (tn.allow k).used = true ∧ (tn.allow k).fn = fn

instance (fn : ℕ) : Decidable (tn.Allowed fn) :=
  inferInstanceAs (Decidable (∃ k : Fin ttTunnelAllowMax, (tn.allow k).used = true ∧ (tn.allow k).fn = fn))

def connFind (fn connid : ℕ) : Option (Fin ttTunnelMaxConns) :=
  (List.finRange ttTunnelMaxConns).find? fun k => (tn.conns k).Matches fn connid

def connFreeSlot : Option (Fin ttTunnelMaxConns) :=
  (List.finRange ttTunnelMaxConns).find? fun k => (tn.conns k).used = false

def setConn (k : Fin ttTunnelMaxConns) (c : TTTunnelConn) : TTTunnel :=
  { tn with conns := Function.update tn.conns k c }

def setSock (k : ℕ) (s : TTTunnelSock) : TTTunnel :=
  { tn with socks := Function.update tn.socks k s }

def setAllow (k : Fin ttTunnelAllowMax) (a : TTTunnelAllow) : TTTunnel :=
  { tn with allow := Function.update tn.allow k a }

end TTTunnel

section

variable (env : TunnelEnv)

def tunnelAllow (tn : TTTunnel) (pk : Key) : TTTunnel :=
  if tn.host = false then tn
  else if ∃ k : Fin ttTunnelAllowMax, (tn.allow k).used = true ∧ (tn.allow k).pk = pk then tn
  else
    match (List.finRange ttTunnelAllowMax).find? fun k => (tn.allow k).used = false with
    | none => tn
    | some k => tn.setAllow k ⟨true, pk, (env.friendByPk pk).getD noFriend⟩

def tunnelDeny (tn : TTTunnel) (pk : Key) : TTTunnel :=
  if tn.host = false then tn
  else
    match (List.finRange ttTunnelAllowMax).find? fun k => (tn.allow k).used = true ∧ (tn.allow k).pk = pk with
    | none => tn
    | some k =>
      let a := tn.allow k
      let tn :=
        if a.fn ≠ noFriend ∧ a.fn < ttMaxFriends then
          tn.setSock a.fn { tn.socks a.fn with used := false, sock := none }
        else tn
      tn.setAllow k { a with used := false }

end

section

variable (C : Crypto) (env : TunnelEnv)

def hostSock (io : Io) (tn : TTTunnel) (fn portIdx : ℕ) : Io × TTTunnel × Option ℕ :=
  if fn ≥ ttMaxFriends ∨ portIdx ≥ ttPortListLen tn.udp then (io, tn, none)
  else
    let k := fn * ttTunnelMaxPorts + portIdx
    if (tn.socks k).used then (io, tn, (tn.socks k).sock)
    else
      match env.socket io.clock with
      | none => (io.tick, tn, none)
      | some fd =>
        match env.resolve io.tick.clock tn.serverHost (ttPortListPort tn.udp portIdx) with
        | none => (io.tick.tick, tn, none)
        | some srv =>
          (io.tick.tick.emit (.udpOpen fn fd srv), tn.setSock k ⟨true, fn, portIdx, some fd, srv⟩, some fd)

def hostForward (io : Io) (tn : TTTunnel) (fn portIdx : ℕ) (data : Bytes) : Io × TTTunnel :=
  if fn ≥ ttMaxFriends then (io, tn)
  else if ¬tn.Allowed fn then (io, tn)
  else
    let r := hostSock env io tn fn portIdx
    match r.2.2 with
    | none => (r.1, r.2.1)
    | some fd => (r.1.emit (.toServer fn fd (r.2.1.socks (fn * ttTunnelMaxPorts + portIdx)).srv data), r.2.1)

def udpPack (portIdx : ℕ) (data : Bytes) : Bytes :=
  ttTunnelPacketId :: ttTunnelVersion :: UInt8.ofNat portIdx :: data

def ttTunnelE2eeSendUdp (io : Io) (fn : ℕ) (frame : Bytes) (portIdx : ℕ) (data : Bytes) : Io :=
  if frame.length > ttTunnelE2eeFrameMax then io
  else if env.custom io.clock = .ok then
    io.tick.emit (.lossy fn (ttTunnelE2eeUdpPacketId :: ttTunnelE2eeVersion :: frame) portIdx data)
  else io.tick

def udpSendSealed (io : Io) (fn portIdx : ℕ) (data : Bytes) : Io :=
  match io.tun with
  | none => io
  | some tun =>
    let r := ttSessionSendLossy C (tun fn) (udpPack portIdx data) ttFrameMax (env.draws io.clock)
    let io := io.tick.setTun fn r.1
    match r.2 with
    | .ok (b :: frame) => ttTunnelE2eeSendUdp env io fn (b :: frame) portIdx data
    | _ => io

def tunnelSend (io : Io) (fn portIdx : ℕ) (data : Bytes) : Io :=
  if data.length > ttTunnelMaxDatagram then io
  else
    match io.tun with
    | some tun =>
      if data.length > ttTunnelE2eeMaxDatagram then io
      else if (tun fn).active = false then io
      else
        let r := tunnelCarrierRetry C env io fn
        if r.2 then r.1 else udpSendSealed C env r.1 fn portIdx data
    | none =>
      if env.custom io.clock = .ok then io.tick.emit (.lossy fn (udpPack portIdx data) portIdx data)
      else io.tick

def hostOpenConn (io : Io) (tn : TTTunnel) (fn portIdx connid : ℕ) : Io × TTTunnel :=
  match tn.connFind fn connid with
  | some _ => (io, tn)
  | none =>
    match tn.connFreeSlot with
    | none => (tcpSend C env io fn ⟨portIdx, connid, .openFail, []⟩, tn)
    | some k =>
      let r := hostOpenSlot C env tn.tcp tn.serverHost io (tn.conns k) fn portIdx connid
      (r.1, tn.setConn k r.2)

def tunnelTcpRxHost (io : Io) (tn : TTTunnel) (fn : ℕ) (h : TcpHead) : Io × TTTunnel :=
  match TTTcpOp.ofByte h.opcode with
  | none => (io, tn)
  | some .open => hostOpenConn C env io tn fn h.portIdx h.connid
  | some op =>
    match tn.connFind fn h.connid with
    | none => (io, tn)
    | some k =>
      let r := rxHostConn C env io (tn.conns k) op h.payload
      (r.1, tn.setConn k r.2)

def tunnelTcpRxClient (io : Io) (tn : TTTunnel) (fn : ℕ) (h : TcpHead) : Io × TTTunnel :=
  if h.portIdx ≥ ttPortListLen tn.tcpLocal then (io, tn)
  else
    match TTTcpOp.ofByte h.opcode with
    | none => (io, tn)
    | some op =>
      match tn.connFind fn h.connid with
      | none => (io, tn)
      | some k =>
        let r := rxClientConn C env io (tn.conns k) op h.payload
        (r.1, tn.setConn k r.2)

def pollHostSock (io : Io) (s : TTTunnelSock) : Io :=
  if s.used = false then io
  else
    match s.sock with
    | none => io
    | some fd =>
      match env.recv io.clock with
      | .data b =>
        let b := b.take ttTunnelMaxDatagram
        if b = [] then io.tick else tunnelSend C env (io.tick.emit (.read s.fn fd b)) s.fn s.portIdx b
      | _ => io.tick

def connLoop (body : Io → TTTunnelConn → Io × TTTunnelConn) (io : Io) (tn : TTTunnel) : Io × TTTunnel :=
  let r := Machine.forSlots (fun _ => body) io tn.conns
  (r.1, { tn with conns := r.2 })

def tunnelPollHost (io : Io) (tn : TTTunnel) : Io × TTTunnel :=
  let io := (List.range (ttMaxFriends * ttTunnelMaxPorts)).foldl
    (fun io k => pollHostSock C env io (tn.socks k)) io
  let r := connLoop (pollHostConn C env) io tn
  if r.1.tun.isSome then connLoop (pollRetryConn C env) r.1 r.2 else r

def pollClientPort (io : Io) (tn : TTTunnel) (i : ℕ) : Io × TTTunnel :=
  match tn.listenSock i with
  | none => (io, tn)
  | some fd =>
    match env.recv io.clock with
    | .data b =>
      let b := b.take ttTunnelMaxDatagram
      if b = [] then (io.tick, tn)
      else
        let tn' :=
          if tn.peerSet i then tn
          else
            { tn with
              peer := Function.update tn.peer i (env.sender io.clock)
              peerSet := Function.update tn.peerSet i true }
        (tunnelSend C env (io.tick.emit (.read tn.peerFn fd b)) tn.peerFn i b, tn')
    | _ => (io.tick, tn)

def tunnelAccept (io : Io) (tn : TTTunnel) (i fd : ℕ) (k : Fin ttTunnelMaxConns) : Io × TTTunnel :=
  let next := (tn.nextConnid + 1) % 2 ^ 16
  let c := { connAlloc (tn.conns k) with
    fn := tn.peerFn, portIdx := i, connid := tn.nextConnid, sock := some fd }
  (tcpSend C env io tn.peerFn ⟨i, tn.nextConnid, .open, []⟩,
    { tn.setConn k c with nextConnid := if next = 0 then 1 else next })

def acceptTurn (io : Io) (tn : TTTunnel) (i : ℕ) : Io × TTTunnel × Bool :=
  match env.accept io.clock with
  | none => (io.tick, tn, false)
  | some fd =>
    match tn.connFreeSlot with
    | none => (io.tick, tn, false)
    | some k =>
      let r := tunnelAccept C env io.tick tn i fd k
      (r.1, r.2, true)

-- every turn that goes on fills a slot, so the slots bound the turns
def acceptLoop : ℕ → Io → TTTunnel → ℕ → Io × TTTunnel
  | 0, io, tn, _ => (io, tn)
  | n + 1, io, tn, i =>
    let r := acceptTurn C env io tn i
    if r.2.2 then acceptLoop n r.1 r.2.1 i else (r.1, r.2.1)

def pollClientAccept (io : Io) (tn : TTTunnel) (i : ℕ) : Io × TTTunnel :=
  match tn.tcpListenSock i with
  | none => (io, tn)
  | some _ => acceptLoop C env (ttTunnelMaxConns + 1) io tn i

def tunnelPollClient (io : Io) (tn : TTTunnel) : Io × TTTunnel :=
  let p :=
    if tn.peerFn = noFriend then (io, tn)
    else (List.range (ttPortListLen tn.udpLocal)).foldl (fun p i => pollClientPort C env p.1 p.2 i) (io, tn)
  let p := (List.range (ttPortListLen tn.tcpLocal)).foldl (fun p i => pollClientAccept C env p.1 p.2 i) p
  let p := connLoop (pollServe C env) p.1 p.2
  connLoop (pollRetryConn C env) p.1 p.2

def tunnelResolve (tn : TTTunnel) : TTTunnel :=
  if tn.peerFn ≠ noFriend then tn
  else
    match env.friendByPk tn.peerPk with
    | none => tn
    | some fn => { tn with peerFn := fn }

def tunnelKick (io : Io) (fn : ℕ) : Io :=
  match io.tun with
  | none => io
  | some tun =>
    if fn = noFriend then io
    else if (tun fn).active = false ∧ (tun fn).initPending = false ∧ (tun fn).replyDue = false then
      ttTunnelE2eeStart C env io fn
    else io

def tunnelPoll (io : Io) (tn : TTTunnel) : Io × Option TTTunnel :=
  if tn.pending ∧ tn.host ∧ tn.pendingSince ≠ 0 ∧
      env.now io.clock - tn.pendingSince ≥ ttTunnelPendingTimeout then (io, none)
  else if tn.pending then (io, some tn)
  else
    let tn := tunnelResolve env tn
    let io := tunnelKick C env io tn.peerFn
    let r := if tn.host then tunnelPollHost C env io tn else tunnelPollClient C env io tn
    if r.2.peerFn = noFriend then (r.1, some r.2)
    else ((tunnelCarrierRetry C env r.1 r.2.peerFn).1, some r.2)

def tunnelRx (fn portIdx : ℕ) (data : Bytes) (io : Io) (tn : TTTunnel) : Io × TTTunnel :=
  if tn.pending then (io, tn)
  else if tn.host then hostForward env io tn fn portIdx data
  else if fn = tn.peerFn ∧ portIdx < ttPortListLen tn.udpLocal ∧ tn.peerSet portIdx then
    match tn.listenSock portIdx with
    | none => (io, tn)
    | some fd => (io.emit (.toLocal fd (tn.peer portIdx) data), tn)
  else (io, tn)

def tunnelRxTcp (fn : ℕ) (h : TcpHead) (io : Io) (tn : TTTunnel) : Io × TTTunnel :=
  if tn.pending then (io, tn)
  else if tn.host then tunnelTcpRxHost C env io tn fn h
  else if fn = tn.peerFn then tunnelTcpRxClient C env io tn fn h
  else (io, tn)

end

structure TunnelSetup where
  host : Bool
  pending : Bool
  pendingSince : ℤ
  peerFn : ℕ
  peerPk : Key
  serverHost : Bytes
  udp : TTPortRangeList
  tcp : TTPortRangeList
  invited : Option TTTunnelAllow
  listenSock : ℕ → Option ℕ
  tcpListenSock : ℕ → Option ℕ
  udpLocal : TTPortRangeList
  tcpLocal : TTPortRangeList

/-- `tunnel_alloc` and what `tt_tunnel_share`, `tt_tunnel_start_host`, `tt_tunnel_start_client` or
an invite fills in. -/
def tunnelAlloc (id : ℕ) (s : TunnelSetup) : TTTunnel where
  id := id
  host := s.host
  pending := s.pending
  pendingSince := s.pendingSince
  peerFn := s.peerFn
  peerPk := s.peerPk
  serverHost := s.serverHost
  udp := s.udp
  tcp := s.tcp
  allow k := if k.val = 0 then s.invited.getD ⟨false, Blob.zero 32, 0⟩ else ⟨false, Blob.zero 32, 0⟩
  socks _ := .zero
  conns _ := .zero
  listenSock := s.listenSock
  tcpListenSock := s.tcpListenSock
  udpLocal := s.udpLocal
  tcpLocal := s.tcpLocal
  peer _ := 0
  peerSet _ := false
  nextConnid := if s.host ∨ s.pending then 0 else 1

structure TunnelBind where
  listenSock : ℕ → Option ℕ
  tcpListenSock : ℕ → Option ℕ
  udpLocal : TTPortRangeList
  tcpLocal : TTPortRangeList

def ttTunnelAccept (b : TunnelBind) (tn : TTTunnel) : TTTunnel :=
  if tn.pending = false then tn
  else
    { tn with
      pending := false, nextConnid := 1, listenSock := b.listenSock, tcpListenSock := b.tcpListenSock
      udpLocal := b.udpLocal, tcpLocal := b.tcpLocal }

end TkTox
