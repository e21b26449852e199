import TkTox.TunnelLink

/-!
What one step of the link can do, said once. A pipe is the link without its sessions and
clocks: the two slots, the TCP frames in flight, the bytes read from and taken by the two
sockets, and the control frames that were given up on. Every step of the link is a sequence of
moves of the pipe, and the invariants of the connection are proved over the moves.
-/

namespace TkTox

def TunnelEffect.out : TunnelEffect → Option TcpFrame
  | .lossless _ _ f => f
  | _ => none

def TunnelEffect.lostCtl : TunnelEffect → Option TcpFrame
  | .refused _ f => if f.op = .data then none else some f
  | _ => none

def TunnelEffect.readBytes : TunnelEffect → Bytes
  | .read _ _ b => b
  | _ => []

def TunnelEffect.wroteBytes : TunnelEffect → Bytes
  | .wrote _ _ b n => b.take n
  | _ => []

structure Pipe where
  conn : Side → TTTunnelConn
  flight : Side → List TcpFrame
  read : Side → Bytes
  wrote : Side → Bytes
  lost : Side → List TcpFrame
  accepted : Bool

def Link.pipe (w : Link) : Pipe where
  conn := w.conn
  flight i := (w.chan i).filterMap LinkPacket.frame
  read i := (w.log i).flatMap TunnelEffect.readBytes
  wrote i := (w.log i).flatMap TunnelEffect.wroteBytes
  lost i := (w.log i).filterMap TunnelEffect.lostCtl
  accepted := w.accepted

namespace Pipe

def put (p : Pipe) (i : Side) (c : TTTunnelConn) (out gone : List TcpFrame) (rd wr : Bytes) : Pipe :=
  { p with
    conn := Function.update p.conn i c
    flight := Function.update p.flight i.other (p.flight i.other ++ out)
    read := Function.update p.read i (p.read i ++ rd)
    wrote := Function.update p.wrote i (p.wrote i ++ wr)
    lost := Function.update p.lost i (p.lost i ++ gone) }

def pop (p : Pipe) (i : Side) (rest : List TcpFrame) : Pipe :=
  { p with flight := Function.update p.flight i rest }

variable (p : Pipe) (i : Side) (c c' : TTTunnelConn) (out out' gone gone' : List TcpFrame)
  (rd rd' wr wr' : Bytes)

@[simp] theorem put_conn : (p.put i c out gone rd wr).conn = Function.update p.conn i c := rfl

@[simp] theorem put_conn_self : (p.put i c out gone rd wr).conn i = c := by simp

@[simp] theorem put_conn_other : (p.put i c out gone rd wr).conn i.other = p.conn i.other := by simp

@[simp] theorem put_flight_other :
    (p.put i c out gone rd wr).flight i.other = p.flight i.other ++ out := by
  simp [put]

@[simp] theorem put_flight_self : (p.put i c out gone rd wr).flight i = p.flight i := by
  simp [put]

@[simp] theorem put_accepted : (p.put i c out gone rd wr).accepted = p.accepted := rfl

@[simp] theorem put_lost_self : (p.put i c out gone rd wr).lost i = p.lost i ++ gone := by
  simp [put]

@[simp] theorem put_lost_other : (p.put i c out gone rd wr).lost i.other = p.lost i.other := by
  simp [put]

@[simp] theorem put_read_self : (p.put i c out gone rd wr).read i = p.read i ++ rd := by
  simp [put]

@[simp] theorem put_read_other : (p.put i c out gone rd wr).read i.other = p.read i.other := by
  simp [put]

@[simp] theorem put_wrote_self : (p.put i c out gone rd wr).wrote i = p.wrote i ++ wr := by
  simp [put]

@[simp] theorem put_wrote_other : (p.put i c out gone rd wr).wrote i.other = p.wrote i.other := by
  simp [put]

@[simp] theorem pop_conn (rest : List TcpFrame) : (p.pop i rest).conn = p.conn := rfl
@[simp] theorem pop_read (rest : List TcpFrame) : (p.pop i rest).read = p.read := rfl
@[simp] theorem pop_wrote (rest : List TcpFrame) : (p.pop i rest).wrote = p.wrote := rfl
@[simp] theorem pop_lost (rest : List TcpFrame) : (p.pop i rest).lost = p.lost := rfl
@[simp] theorem pop_accepted (rest : List TcpFrame) : (p.pop i rest).accepted = p.accepted := rfl

@[simp] theorem pop_flight_self (rest : List TcpFrame) : (p.pop i rest).flight i = rest := by
  simp [pop]

@[simp] theorem pop_flight_other (rest : List TcpFrame) :
    (p.pop i rest).flight i.other = p.flight i.other := by
  simp [pop]

theorem put_put : (p.put i c out gone rd wr).put i c' out' gone' rd' wr' =
    p.put i c' (out ++ out') (gone ++ gone') (rd ++ rd') (wr ++ wr') := by
  simp [put, List.append_assoc]

theorem put_same : p.put i (p.conn i) [] [] [] [] = p := by
  simp [put]

end Pipe

def Ctl (f : TcpFrame) (out gone : List TcpFrame) : Prop :=
  (out = [f] ∧ gone = []) ∨ (out = [] ∧ gone = [f])

-- what a move may rely on: a live channel where it sends DATA, sockets that take whole slices,
-- room in the connect buffer, and a FIN that finds every DATA frame acknowledged
structure MoveCond where
  live : Side → Prop
  whole : Prop
  room : Prop
  settled : Prop

inductive Stored (K : MoveCond) (i : Side) (c : TTTunnelConn) (b : Bytes) :
    TTTunnelConn → Bytes → Prop
  | pend : i = .host → c.connecting = true →
      (K.room → c.pend.length + b.length ≤ ttTunnelPendMax) → Stored K i c b (connPend c b) []
  | write (n : ℕ) : (i = .host → c.connecting = false) → c.sock.isSome = true →
      (K.whole → b.length ≤ n) → Stored K i c b c (b.take n)
  | nowhere : i = .host → c.connecting = false → c.sock = none → Stored K i c b c []

inductive Credited (c : TTTunnelConn) : TTTunnelConn → List TcpFrame → List TcpFrame → Prop
  | count : c.ackDue + 1 < ttTunnelAckBatch → Credited c { c with ackDue := c.ackDue + 1 } [] []
  | batch {out gone : List TcpFrame} : ttTunnelAckBatch ≤ c.ackDue + 1 →
      Ctl (c.frame .ack (u16be (c.ackDue + 1))) out gone →
      Credited c { c with ackDue := 0 } out gone

/-- What the slot of side `i` does with a frame of its connection. -/
inductive Rx (cfg : LinkCfg) (K : MoveCond) (i : Side) (c : TTTunnelConn) (f : TcpFrame) :
    TTTunnelConn → List TcpFrame → List TcpFrame → Bytes → Prop
  | unused : c.used = false → (i = .host → f.op ≠ .open) → Rx cfg K i c f c [] [] []
  | ignored : c.used = true → (f.op = .open ∨ f.op = .openAck ∨ (f.op = .openFail ∧ i = .host)) →
      Rx cfg K i c f c [] [] []
  | refusedOpen {c' : TTTunnelConn} {out gone : List TcpFrame} : i = .host → c.used = false →
      f.op = .open → (c' = c ∨ ∃ c₀, c' = connFree c₀) →
      Ctl ⟨cfg.portIdx, cfg.connid, .openFail, []⟩ out gone → Rx cfg K i c f c' out gone []
  | opened {out gone : List TcpFrame} (s : ℕ) (connecting : Bool) : i = .host → c.used = false →
      f.op = .open →
      (if connecting then out = [] ∧ gone = []
        else Ctl ⟨cfg.portIdx, cfg.connid, .openAck, []⟩ out gone) →
      Rx cfg K i c f { connAlloc c with
        fn := cfg.fn .host, portIdx := cfg.portIdx, connid := cfg.connid, sock := some s,
        connecting := connecting } out gone []
  | openFail : i = .client → c.used = true → f.op = .openFail → Rx cfg K i c f (connFree c) [] [] []
  | data {c₁ c' : TTTunnelConn} {out gone : List TcpFrame} {wr : Bytes} : c.used = true →
      f.op = .data → Stored K i c f.payload c₁ wr → Credited c₁ c' out gone →
      Rx cfg K i c f c' out gone wr
  | closed : i = .client → c.used = true → f.op = .data → c.sock = none → Rx cfg K i c f c [] [] []
  | ack : c.used = true → f.op = .ack → Rx cfg K i c f (connTakeCredit c f.payload) [] [] []
  | fin : c.used = true → f.op = .fin → (K.settled → c.unacked = 0) →
      Rx cfg K i c f (connMarkPeerGone c) [] [] []

def Serving (c : TTTunnelConn) : Prop := c.used = true ∧ c.sock.isSome = true

inductive Move (cfg : LinkCfg) (K : MoveCond) (p : Pipe) : Pipe → Prop
  | accept {out gone : List TcpFrame} (fd : ℕ) : p.accepted = false →
      Ctl ⟨cfg.portIdx, cfg.connid, .open, []⟩ out gone →
      Move cfg K p { p.put .client { connAlloc (p.conn .client) with
        fn := cfg.fn .client, portIdx := cfg.portIdx, connid := cfg.connid, sock := some fd }
        out gone [] [] with accepted := true }
  | sent (i : Side) (k : ℕ) : Serving (p.conn i) → (p.conn i).outbuf ≠ [] →
      (p.conn i).unacked < ttTunnelTcpWindow → 0 < k →
      Move cfg K p (p.put i ((p.conn i).advance k)
        [(p.conn i).frame .data ((p.conn i).outbuf.take k)] [] [] [])
  | swallowed (i : Side) (k : ℕ) : ¬K.live i → Serving (p.conn i) → (p.conn i).outbuf ≠ [] →
      (p.conn i).unacked < ttTunnelTcpWindow → 0 < k →
      Move cfg K p (p.put i ((p.conn i).advance k) [] [] [] [])
  | read (i : Side) (b : Bytes) : Serving (p.conn i) →
      Move cfg K p (p.put i { p.conn i with outbuf := (p.conn i).outbuf ++ b } [] [] b [])
  | close {out gone : List TcpFrame} (i : Side) (b : Bytes) : Serving (p.conn i) →
      Ctl ⟨cfg.portIdx, cfg.connid, .fin, []⟩ out gone →
      Move cfg K p (p.put i (connFree (p.conn i)) out gone b [])
  | connected {out gone : List TcpFrame} (n : ℕ) : Serving (p.conn .host) →
      (p.conn .host).connecting = true → (K.whole → (p.conn .host).pend.length ≤ n) →
      Ctl ⟨cfg.portIdx, cfg.connid, .openAck, []⟩ out gone →
      Move cfg K p (p.put .host { p.conn .host with connecting := false, pend := [] } out gone []
        ((p.conn .host).pend.take n))
  | connectFailed {out gone : List TcpFrame} : Serving (p.conn .host) →
      (p.conn .host).connecting = true →
      Ctl ⟨cfg.portIdx, cfg.connid, .openFail, []⟩ out gone →
      Move cfg K p (p.put .host (connFree (p.conn .host)) out gone [] [])
  | rx {c' : TTTunnelConn} {out gone : List TcpFrame} {wr : Bytes} (i : Side) (f : TcpFrame)
      (rest : List TcpFrame) : p.flight i = f :: rest → Rx cfg K i (p.conn i) f c' out gone wr →
      Move cfg K p ((p.pop i rest).put i c' out gone [] wr)

abbrev Moves (cfg : LinkCfg) (K : MoveCond) : Pipe → Pipe → Prop :=
  Relation.ReflTransGen (Move cfg K)

/-- Every slot in use and every frame in flight belongs to the connection. -/
structure Pipe.Wf (cfg : LinkCfg) (p : Pipe) : Prop where
  conn : ∀ i, (p.conn i).used = true → (p.conn i).fn = cfg.fn i ∧
    (p.conn i).portIdx = cfg.portIdx ∧ (p.conn i).connid = cfg.connid
  flight : ∀ i, ∀ f ∈ p.flight i, f.portIdx = cfg.portIdx ∧ f.connid = cfg.connid

end TkTox
