import TkTox.TunnelAccess

/-!
Two engines with the tunnels between them: the tables, the packets on their way and which tunnels of
the receiving table act on each. A packet of `tunnel.c` names a port and a connection but no tunnel,
so it is offered to every slot.
-/

namespace TkTox

abbrev TunnelTable := Fin ttTunnelMaxTunnels → Option TTTunnel

inductive NetEnd
  | near
  | far
deriving DecidableEq, Repr

instance : Fintype NetEnd where
  elems := {.near, .far}
  complete e := by cases e <;> decide

def NetEnd.other : NetEnd → NetEnd
  | .near => .far
  | .far => .near

section

variable (C : Crypto) (env : TunnelEnv)

def pollTurn (i : Fin ttTunnelMaxTunnels) (io : Io) : Option TTTunnel → Io × Option TTTunnel
  | none => (io, none)
  | some tn => tunnelPoll C env { io with owner := i } tn

def ttTunnelPoll (io : Io) (t : TunnelTable) : Io × TunnelTable :=
  Machine.forSlots (pollTurn C env) io t

def offer (rx : Io → TTTunnel → Io × TTTunnel) (j : Fin ttTunnelMaxTunnels) (io : Io) :
    Option TTTunnel → Io × Option TTTunnel
  | none => (io, none)
  | some tn =>
    let r := rx { io with owner := j } tn
    ({ r.1 with owner := io.owner }, some r.2)

inductive TunnelHead
  | udp (portIdx : ℕ) (data : Bytes)
  | tcp (h : TcpHead)
deriving DecidableEq

def TunnelHead.rx (fn : ℕ) : TunnelHead → Io → TTTunnel → Io × TTTunnel
  | .udp portIdx data => tunnelRx env fn portIdx data
  | .tcp h => tunnelRxTcp C env fn h

def offerAll (io : Io) (t : TunnelTable) (fn : ℕ) : Option TunnelHead → Io × TunnelTable
  | none => (io, t)
  | some a => Machine.forSlots (offer (a.rx C env fn)) io t

def udpHead (pkt : Bytes) : Option TunnelHead := (parseUdp pkt).map fun u => .udp u.1 u.2

def tcpHead (pkt : Bytes) : Option TunnelHead := (parseTcp pkt).map .tcp

def ttTunnelRx (io : Io) (t : TunnelTable) (fn : ℕ) (pkt : Bytes) : Io × TunnelTable :=
  offerAll C env io t fn (udpHead pkt)

def ttTunnelRxTcp (io : Io) (t : TunnelTable) (fn : ℕ) (pkt : Bytes) : Io × TunnelTable :=
  offerAll C env io t fn (tcpHead pkt)

def cbFriendLossyPacket (io : Io) (fn : ℕ) : Bytes → Io × Option Bytes
  | id :: ver :: frame =>
    if id = ttTunnelE2eeUdpPacketId ∧ ver = ttTunnelE2eeVersion then
      ttTunnelE2eeRx C env io fn frame true
    else (io, some (id :: ver :: frame))
  | pkt => (io, some pkt)

end

/-- `owner` is the slot of the tunnel that sent it; none of the bytes says so. -/
structure NetPacket where
  owner : ℕ
  pkt : Bytes
deriving DecidableEq, Repr

/-- `fn e` is the other end's friend number at `e`, `setup e j` the tunnel in slot `j` at `e`, and
`pair e i` the slot at `e` of the tunnel that was set up with slot `i` of the other end. No list has
more ports than `tt_port_list_parse` lets in. -/
structure NetCfg where
  env : NetEnd → TunnelEnv
  fn : NetEnd → ℕ
  setup : NetEnd → Fin ttTunnelMaxTunnels → Option TunnelSetup
  pair : NetEnd → ℕ → Option (Fin ttTunnelMaxTunnels)
  ports : ∀ e j, ∀ s ∈ setup e j, ttPortListLen s.udp ≤ ttTunnelMaxPorts

/-- `lossless e` and `lossy e` are on their way to `e`; `did e` is everything `e` did, with the slot
that did it. -/
structure TunnelNet where
  io : NetEnd → Io
  table : NetEnd → TunnelTable
  lossless : NetEnd → List NetPacket
  lossy : NetEnd → List NetPacket
  did : NetEnd → List (ℕ × TunnelEffect)

inductive NetOp
  | poll (e : NetEnd)
  -- the oldest lossless packet arrives
  | lossless (e : NetEnd)
  -- some lossy packet arrives, again perhaps, or is lost
  | lossy (e : NetEnd) (k : ℕ)
  | lose (e : NetEnd) (k : ℕ)
  -- the sessions are shared with other traffic
  | session (e : NetEnd) (tun : ℕ → TTSession)

def losslessTo (fn : ℕ) : ℕ × TunnelEffect → Option NetPacket
  | (owner, .lossless fn' pkt _) => if fn' = fn then some ⟨owner, pkt⟩ else none
  | _ => none

def lossyTo (fn : ℕ) : ℕ × TunnelEffect → Option NetPacket
  | (owner, .lossy fn' pkt _ _) => if fn' = fn then some ⟨owner, pkt⟩ else none
  | _ => none

namespace TunnelNet

def start (cfg : NetCfg) (tun : NetEnd → Option (ℕ → TTSession)) : TunnelNet where
  io e := ⟨tun e, 0, ttTunnelMaxTunnels, []⟩
  table e j := (cfg.setup e j).map (tunnelAlloc j)
  lossless _ := []
  lossy _ := []
  did _ := []

def ready (w : TunnelNet) (e : NetEnd) : Io := { w.io e with owner := ttTunnelMaxTunnels, log := [] }

def act (cfg : NetCfg) (w : TunnelNet) (e : NetEnd) (r : Io × TunnelTable) : TunnelNet where
  io := Function.update w.io e r.1
  table := Function.update w.table e r.2
  lossless := Function.update w.lossless e.other
    (w.lossless e.other ++ r.1.log.filterMap (losslessTo (cfg.fn e)))
  lossy := Function.update w.lossy e.other
    (w.lossy e.other ++ r.1.log.filterMap (lossyTo (cfg.fn e)))
  did := Function.update w.did e (w.did e ++ r.1.log)

variable (C : Crypto) (cfg : NetCfg)

def losslessTurn (w : TunnelNet) (e : NetEnd) (p : NetPacket) : Io × TunnelTable :=
  let r := cbFriendLosslessPacket C (cfg.env e) (w.ready e) (cfg.fn e) p.pkt
  match r.2 with
  | none => (r.1, w.table e)
  | some pkt => ttTunnelRxTcp C (cfg.env e) r.1 (w.table e) (cfg.fn e) pkt

def lossyTurn (w : TunnelNet) (e : NetEnd) (p : NetPacket) : Io × TunnelTable :=
  let r := cbFriendLossyPacket C (cfg.env e) (w.ready e) (cfg.fn e) p.pkt
  match r.2 with
  | none => (r.1, w.table e)
  | some pkt => ttTunnelRx C (cfg.env e) r.1 (w.table e) (cfg.fn e) pkt

def step (w : TunnelNet) : NetOp → TunnelNet
  | .poll e => w.act cfg e (ttTunnelPoll C (cfg.env e) (w.ready e) (w.table e))
  | .lossless e =>
    match w.lossless e with
    | [] => w
    | p :: rest =>
      { w with lossless := Function.update w.lossless e rest }.act cfg e (w.losslessTurn C cfg e p)
  | .lossy e k =>
    match (w.lossy e)[k]? with
    | none => w
    | some p => w.act cfg e (w.lossyTurn C cfg e p)
  | .lose e k => { w with lossy := Function.update w.lossy e ((w.lossy e).eraseIdx k) }
  | .session e tun =>
    { w with io := Function.update w.io e { w.io e with tun := (w.io e).tun.map fun _ => tun } }

def losslessHead (w : TunnelNet) (e : NetEnd) (p : NetPacket) : Option TunnelHead :=
  (cbFriendLosslessPacket C (cfg.env e) (w.ready e) (cfg.fn e) p.pkt).2.bind tcpHead

def lossyHead (w : TunnelNet) (e : NetEnd) (p : NetPacket) : Option TunnelHead :=
  (cbFriendLossyPacket C (cfg.env e) (w.ready e) (cfg.fn e) p.pkt).2.bind udpHead

def arrival (w : TunnelNet) : NetOp → Option (NetEnd × ℕ × TunnelHead)
  | .lossless e => (w.lossless e).head?.bind fun p => (w.losslessHead C cfg e p).map fun a => (e, p.owner, a)
  | .lossy e k => (w.lossy e)[k]?.bind fun p => (w.lossyHead C cfg e p).map fun a => (e, p.owner, a)
  | _ => none

end TunnelNet

def TunnelSetup.Serves (env : TunnelEnv) (s : TunnelSetup) (l : TTPortRangeList) (portIdx addr : ℕ) : Prop :=
  s.host = true ∧ portIdx < ttPortListLen l ∧
    ∃ clock, env.resolve clock s.serverHost (ttPortListPort l portIdx) = some addr

section

variable (cfg : NetCfg)

/-- Where the bytes of slot `j` go, whose tunnel `tn` was set up with `s`. A datagram goes to the
server at the port it names, or to the peer of the port's local socket. The bytes of a connection go to
its socket, which at a host was connected to the server. -/
def Home (env : TunnelEnv) (done : List (ℕ × TunnelEffect)) (s : TunnelSetup) (tn : TTTunnel) (j : ℕ)
    (a : Option TunnelHead) : TunnelEffect → Prop
  | .connect _ _ addr => ∃ h, a = some (.tcp h) ∧ s.Serves env s.tcp h.portIdx addr
  | .udpOpen _ _ addr => ∃ portIdx b, a = some (.udp portIdx b) ∧ s.Serves env s.udp portIdx addr
  | .toServer _ _ addr b => ∃ portIdx, a = some (.udp portIdx b) ∧ s.Serves env s.udp portIdx addr
  | .toLocal fd addr b =>
    s.host = false ∧ ∃ portIdx, a = some (.udp portIdx b) ∧ s.listenSock portIdx = some fd ∧ tn.peer portIdx = addr
  | .wrote fn fd b _ => ∃ k, (tn.conns k).used = true ∧ (tn.conns k).fn = fn ∧ (tn.conns k).sock = some fd ∧
    ((∃ h, a = some (.tcp h) ∧ (tn.conns k).connid = h.connid ∧ b = h.payload) ∨
      a = none ∧ b = (tn.conns k).pend) ∧
    (s.host = true → ∃ addr, (j, .connect fn fd addr) ∈ done ∧ s.Serves env s.tcp (tn.conns k).portIdx addr)
  | _ => True

/-- What `e` does in a step is the session layer's, or that of a tunnel with nothing or its own packet
to act on, and home. -/
def Belongs (C : Crypto) (w : TunnelNet) (op : NetOp) (e : NetEnd) (d : ℕ × TunnelEffect) : Prop :=
  (d.1 = ttTunnelMaxTunnels ∧ IsCarrier (cfg.fn e) d.2) ∨
  ∃ j : Fin ttTunnelMaxTunnels, d.1 = j ∧
    (∀ a ∈ w.arrival C cfg op, a.1 = e ∧ cfg.pair e a.2.1 = some j) ∧
    ∃ s ∈ cfg.setup e j, ∃ tn ∈ w.table e j,
      Home (cfg.env e) (w.did e) s tn j ((w.arrival C cfg op).map fun a => a.2.2) d.2

/-- A packet changes no tunnel but the one its own was set up with, and all that is done goes where it
belongs. -/
structure Isolated (C : Crypto) (w : TunnelNet) (op : NetOp) : Prop where
  untouched : ∀ a ∈ w.arrival C cfg op, ∀ j, cfg.pair a.1 a.2.1 ≠ some j →
    (w.step C cfg op).table a.1 j = w.table a.1 j
  home : ∀ e, ∃ l, (w.step C cfg op).did e = w.did e ++ l ∧ ∀ d ∈ l, Belongs cfg C w op e d

end

namespace TTTunnel

def IgnoresUdp (tn : TTTunnel) (fn portIdx : ℕ) : Prop :=
  tn.pending = true ∨
    if tn.host = true then fn ≥ ttMaxFriends ∨ ¬ tn.Allowed fn ∨ portIdx ≥ ttPortListLen tn.udp
    else fn ≠ tn.peerFn ∨ portIdx ≥ ttPortListLen tn.udpLocal ∨ tn.peerSet portIdx = false ∨
      tn.listenSock portIdx = none

def HostIgnores (tn : TTTunnel) (fn connid : ℕ) : Option TTTcpOp → Prop
  | some .open => tn.connFind fn connid ≠ none
  | some .data | some .fin | some .ack => tn.connFind fn connid = none
  | _ => True

def ClientIgnores (tn : TTTunnel) (fn connid : ℕ) : Option TTTcpOp → Prop
  | some .openFail | some .data | some .fin | some .ack => tn.connFind fn connid = none
  | _ => True

def IgnoresTcp (tn : TTTunnel) (fn : ℕ) (h : TcpHead) : Prop :=
  tn.pending = true ∨
    if tn.host = true then tn.HostIgnores fn h.connid (TTTcpOp.ofByte h.opcode)
    else fn ≠ tn.peerFn ∨ h.portIdx ≥ ttPortListLen tn.tcpLocal ∨
      tn.ClientIgnores fn h.connid (TTTcpOp.ofByte h.opcode)

instance (tn : TTTunnel) (fn portIdx : ℕ) : Decidable (tn.IgnoresUdp fn portIdx) :=
  inferInstanceAs (Decidable (tn.pending = true ∨
    if tn.host = true then fn ≥ ttMaxFriends ∨ ¬ tn.Allowed fn ∨ portIdx ≥ ttPortListLen tn.udp
    else fn ≠ tn.peerFn ∨ portIdx ≥ ttPortListLen tn.udpLocal ∨ tn.peerSet portIdx = false ∨
      tn.listenSock portIdx = none))

instance (tn : TTTunnel) (fn connid : ℕ) : (op : Option TTTcpOp) → Decidable (tn.HostIgnores fn connid op)
  | some .open => inferInstanceAs (Decidable (tn.connFind fn connid ≠ none))
  | some .data | some .fin | some .ack => inferInstanceAs (Decidable (tn.connFind fn connid = none))
  | none | some .openAck | some .openFail => isTrue trivial

instance (tn : TTTunnel) (fn connid : ℕ) :
    (op : Option TTTcpOp) → Decidable (tn.ClientIgnores fn connid op)
  | some .openFail | some .data | some .fin | some .ack =>
    inferInstanceAs (Decidable (tn.connFind fn connid = none))
  | none | some .open | some .openAck => isTrue trivial

instance (tn : TTTunnel) (fn : ℕ) (h : TcpHead) : Decidable (tn.IgnoresTcp fn h) :=
  inferInstanceAs (Decidable (tn.pending = true ∨
    if tn.host = true then tn.HostIgnores fn h.connid (TTTcpOp.ofByte h.opcode)
    else fn ≠ tn.peerFn ∨ h.portIdx ≥ ttPortListLen tn.tcpLocal ∨
      tn.ClientIgnores fn h.connid (TTTcpOp.ofByte h.opcode)))

/-- The tunnel has no use for the header. -/
def Ignores (tn : TTTunnel) (fn : ℕ) : TunnelHead → Prop
  | .udp portIdx _ => tn.IgnoresUdp fn portIdx
  | .tcp h => tn.IgnoresTcp fn h

instance (tn : TTTunnel) (fn : ℕ) : (a : TunnelHead) → Decidable (tn.Ignores fn a)
  | .udp portIdx _ => inferInstanceAs (Decidable (tn.IgnoresUdp fn portIdx))
  | .tcp h => inferInstanceAs (Decidable (tn.IgnoresTcp fn h))

end TTTunnel

/-- A packet that arrives is ignored by every tunnel but the one its own was set up with. -/
def NetOk (C : Crypto) (cfg : NetCfg) (w : TunnelNet) (op : NetOp) : Prop :=
  ∀ a ∈ w.arrival C cfg op, ∀ j, ∀ tn ∈ w.table a.1 j, cfg.pair a.1 a.2.1 ≠ some j →
    tn.Ignores (cfg.fn a.1) a.2.2

instance (C : Crypto) (cfg : NetCfg) (w : TunnelNet) (op : NetOp) : Decidable (NetOk C cfg w op) :=
  inferInstanceAs (Decidable (∀ a ∈ w.arrival C cfg op, ∀ j, ∀ tn ∈ w.table a.1 j, cfg.pair a.1 a.2.1 ≠ some j →
    tn.Ignores (cfg.fn a.1) a.2.2))

section

variable {C : Crypto} {env : TunnelEnv} {tn : TTTunnel}

theorem hostForward_ignored (io : Io) {fn portIdx : ℕ} (data : Bytes)
    (h : fn ≥ ttMaxFriends ∨ ¬ tn.Allowed fn ∨ portIdx ≥ ttPortListLen tn.udp) :
    hostForward env io tn fn portIdx data = (io, tn) := by
  unfold hostForward
  by_cases hfn : fn ≥ ttMaxFriends
  · exact if_pos hfn
  by_cases hallowed : tn.Allowed fn
  · have hport : portIdx ≥ ttPortListLen tn.udp :=
      (h.resolve_left hfn).resolve_left (not_not.mpr hallowed)
    rw [if_neg hfn, if_neg (not_not.mpr hallowed), hostSock, if_pos (Or.inr hport)]
  · rw [if_neg hfn, if_pos hallowed]

theorem tunnelRx_ignored (io : Io) {fn portIdx : ℕ} (data : Bytes) (h : tn.IgnoresUdp fn portIdx) :
    tunnelRx env fn portIdx data io tn = (io, tn) := by
  unfold tunnelRx
  obtain hp | h := h
  · exact if_pos hp
  by_cases hp : tn.pending = true
  · exact if_pos hp
  rw [if_neg hp]
  by_cases hh : tn.host = true
  · rw [if_pos hh] at h ⊢
    exact hostForward_ignored io data h
  rw [if_neg hh] at h ⊢
  by_cases hclient : fn = tn.peerFn ∧ portIdx < ttPortListLen tn.udpLocal ∧ tn.peerSet portIdx = true
  · rw [if_pos hclient]
    obtain ⟨hfn, hport, hset⟩ := hclient
    obtain h | h | h | h := h
    · exact absurd hfn h
    · omega
    · rw [hset] at h
      cases h
    · rw [h]
  · exact if_neg hclient

theorem setConn_self (k : Fin ttTunnelMaxConns) : tn.setConn k (tn.conns k) = tn := by
  rw [TTTunnel.setConn, Function.update_eq_self]

theorem tunnelTcpRxHost_ignored (io : Io) {fn : ℕ} {h : TcpHead}
    (hi : tn.HostIgnores fn h.connid (TTTcpOp.ofByte h.opcode)) :
    tunnelTcpRxHost C env io tn fn h = (io, tn) := by
  unfold tunnelTcpRxHost
  cases hop : TTTcpOp.ofByte h.opcode with
  | none => rfl
  | some op =>
    rw [hop] at hi
    cases op with
    | «open» =>
      obtain ⟨k, hk⟩ := Option.ne_none_iff_exists'.mp hi
      simp only [hostOpenConn, hk]
    | data | fin | ack =>
      have hnone : tn.connFind fn h.connid = none := hi
      simp only [hnone]
    | openAck | openFail =>
      cases tn.connFind fn h.connid with
      | none => rfl
      | some k => simp only [rxHostConn, setConn_self]

theorem tunnelTcpRxClient_ignored (io : Io) {fn : ℕ} {h : TcpHead}
    (hi : h.portIdx ≥ ttPortListLen tn.tcpLocal ∨
      tn.ClientIgnores fn h.connid (TTTcpOp.ofByte h.opcode)) :
    tunnelTcpRxClient C env io tn fn h = (io, tn) := by
  unfold tunnelTcpRxClient
  split_ifs with hport
  · rfl
  · replace hi := hi.resolve_left hport
    cases hop : TTTcpOp.ofByte h.opcode with
    | none => rfl
    | some op =>
      rw [hop] at hi
      cases op with
      | openFail | data | fin | ack =>
        have hnone : tn.connFind fn h.connid = none := hi
        simp only [hnone]
      | «open» | openAck =>
        cases tn.connFind fn h.connid with
        | none => rfl
        | some k => simp only [rxClientConn, setConn_self]

theorem tunnelRxTcp_ignored (io : Io) {fn : ℕ} {h : TcpHead} (hi : tn.IgnoresTcp fn h) :
    tunnelRxTcp C env fn h io tn = (io, tn) := by
  unfold tunnelRxTcp
  obtain hp | hi := hi
  · exact if_pos hp
  by_cases hp : tn.pending = true
  · exact if_pos hp
  rw [if_neg hp]
  by_cases hh : tn.host = true
  · rw [if_pos hh] at hi ⊢
    exact tunnelTcpRxHost_ignored io hi
  rw [if_neg hh] at hi ⊢
  by_cases hfn : fn = tn.peerFn
  · rw [if_pos hfn]
    exact tunnelTcpRxClient_ignored io (hi.resolve_left fun h => h hfn)
  · exact if_neg hfn

theorem ignored {fn : ℕ} {a : TunnelHead} (h : tn.Ignores fn a) (io : Io) : a.rx C env fn io tn = (io, tn) := by
  cases a with
  | udp portIdx data => exact tunnelRx_ignored io data h
  | tcp hd => exact tunnelRxTcp_ignored io h

end

end TkTox
