import TkTox.TunnelSend

/-!
One forwarded TCP connection of a tunnel: the slot of `conns[]`, its buffers, the credit
window and what a poll or a received frame does with it. The two loops that push bytes to the
peer are described once, as runs of single actions, and every later invariant goes over those.
-/

namespace TkTox

structure TTTunnelConn where
  used : Bool
  fn : ℕ
  portIdx : ℕ
  connid : ℕ
  sock : Option ℕ
  connecting : Bool
  peerGone : Bool
  unacked : ℕ
  ackDue : ℕ
  pend : Bytes
  outbuf : Bytes
deriving DecidableEq, Repr

structure TTPortRange where
  start : ℕ
  count : ℕ
deriving DecidableEq, Repr

abbrev TTPortRangeList := List TTPortRange

def ttPortListLen (l : TTPortRangeList) : ℕ := (l.map TTPortRange.count).sum

def ttPortListPort : TTPortRangeList → ℕ → ℕ
  | [], _ => 0
  | r :: l, idx => if idx < r.count then (r.start + idx) % 2 ^ 16 else ttPortListPort l (idx - r.count)

namespace TTTunnelConn

def zero : TTTunnelConn := ⟨false, 0, 0, 0, none, false, false, 0, 0, [], []⟩

def frame (c : TTTunnelConn) (op : TTTcpOp) (payload : Bytes) : TcpFrame :=
  ⟨c.portIdx, c.connid, op, payload⟩

def Matches (c : TTTunnelConn) (fn connid : ℕ) : Prop :=
  c.used = true ∧ c.fn = fn ∧ c.connid = connid

instance (c : TTTunnelConn) (fn connid : ℕ) : Decidable (c.Matches fn connid) :=
  inferInstanceAs (Decidable (_ ∧ _ ∧ _))

def advance (c : TTTunnelConn) (k : ℕ) : TTTunnelConn :=
  { c with unacked := c.unacked + 1, outbuf := c.outbuf.drop k }

end TTTunnelConn

def connAlloc (c : TTTunnelConn) : TTTunnelConn :=
  { c with
    used := true, sock := none, connecting := false, peerGone := false, unacked := 0, ackDue := 0 }

def connFree (c : TTTunnelConn) : TTTunnelConn :=
  { c with
    pend := [], outbuf := [], used := false, sock := none, connecting := false
    peerGone := false, unacked := 0, ackDue := 0 }

def connPend (c : TTTunnelConn) (data : Bytes) : TTTunnelConn :=
  if c.pend.length + data.length > ttTunnelPendMax then c else { c with pend := c.pend ++ data }

def connOutAdd (c : TTTunnelConn) (data : Bytes) : Option TTTunnelConn :=
  if c.outbuf.length + data.length > ttTunnelPendMax then none
  else some { c with outbuf := c.outbuf ++ data }

inductive FlushOut
  | empty
  | congested
  | failed
deriving DecidableEq, Repr

section

variable (C : Crypto) (env : TunnelEnv)

-- every turn that goes on counts one frame against the window, so the window bounds the turns
def connFlushLoop : ℕ → Io → TTTunnelConn → Io × TTTunnelConn × FlushOut
  | 0, io, c => (io, c, if c.outbuf = [] then .empty else .congested)
  | n + 1, io, c =>
    if c.outbuf ≠ [] ∧ c.unacked < ttTunnelTcpWindow then
      let chunk := min c.outbuf.length (connReadMax io)
      let r := tcpSendEx C env io c.fn (c.frame .data (c.outbuf.take chunk))
      match r.2 with
      | .sendq => (r.1, c, .congested)
      | .fatal => (r.1, c, .failed)
      | .ok => connFlushLoop n r.1 (c.advance chunk)
    else (io, c, if c.outbuf = [] then .empty else .congested)

def connFlushOut (io : Io) (c : TTTunnelConn) : Io × TTTunnelConn × FlushOut :=
  connFlushLoop C env (ttTunnelTcpWindow - c.unacked) io c

def connDrainLoop : ℕ → Io → TTTunnelConn → Io × TTTunnelConn × Bool
  | 0, io, c => (io, c, true)
  | n + 1, io, c =>
    match env.recv io.clock with
    | .again => (io.tick, c, true)
    | .error => (io.tick, c, false)
    | .data b =>
      -- `tt_recv` fills at most `max_read` bytes, and none at the end of the stream
      let b := b.take (connReadMax io)
      if b = [] then (io.tick, c, false)
      else
        let io := io.tick.emit (.read c.fn (c.sock.getD 0) b)
        match connOutAdd c b with
        | none => (io, c, false)
        | some c =>
          let r := connFlushOut C env io c
          match r.2.2 with
          | .failed => (r.1, r.2.1, false)
          | .congested => (r.1, r.2.1, true)
          | .empty => connDrainLoop n r.1 r.2.1

def connDrainOut (io : Io) (c : TTTunnelConn) : Io × TTTunnelConn × Bool :=
  let r := connFlushOut C env io c
  match r.2.2 with
  | .failed => (r.1, r.2.1, false)
  | .congested => (r.1, r.2.1, true)
  | .empty => connDrainLoop C env (ttTunnelTcpWindow + 1 - r.2.1.unacked) r.1 r.2.1

def connReturnCredit (io : Io) (c : TTTunnelConn) : Io × TTTunnelConn :=
  let due := c.ackDue + 1
  if due ≥ ttTunnelAckBatch ∨ due ≥ ttTunnelTcpWindow then
    (tcpSend C env io c.fn (c.frame .ack (u16be due)), { c with ackDue := 0 })
  else (io, { c with ackDue := due })

-- `tt_send`: the socket takes some of the bytes and the rest is forgotten
def ttSend (io : Io) (c : TTTunnelConn) (b : Bytes) : Io :=
  io.tick.emit (.wrote c.fn (c.sock.getD 0) b (env.taken io.clock))

end

def creditOf (payload : Bytes) : ℕ := if payload.length ≥ 2 then readU16 payload else 1

def connTakeCredit (c : TTTunnelConn) (payload : Bytes) : TTTunnelConn :=
  let c := { c with unacked := c.unacked - creditOf payload }
  if c.peerGone = true ∧ c.unacked = 0 then connFree c else c

def connMarkPeerGone (c : TTTunnelConn) : TTTunnelConn :=
  if c.unacked = 0 then connFree c else { c with peerGone := true, sock := none }

section

variable (C : Crypto) (env : TunnelEnv)

def hostOpenSlot (tcp : TTPortRangeList) (server : Bytes) (io : Io) (c : TTTunnelConn)
    (fn portIdx connid : ℕ) : Io × TTTunnelConn :=
  let c := { connAlloc c with fn := fn, portIdx := portIdx, connid := connid }
  let fail := fun io => (tcpSend C env io fn ⟨portIdx, connid, .openFail, []⟩, connFree c)
  match env.socket io.clock with
  | none => fail io.tick
  | some s =>
    if portIdx ≥ ttPortListLen tcp then fail io.tick
    else
      match env.resolve io.tick.clock server (ttPortListPort tcp portIdx) with
      | none => fail io.tick.tick
      | some addr =>
        let io := io.tick.tick.emit (.connect fn s addr)
        match env.connect io.clock with
        | .done =>
          (tcpSend C env io.tick fn ⟨portIdx, connid, .openAck, []⟩, { c with sock := some s })
        | .inProgress => (io.tick, { c with sock := some s, connecting := true })
        | .failed => fail io.tick

def connService (io : Io) (c : TTTunnelConn) : Io × TTTunnelConn :=
  let r := connDrainOut C env io c
  if r.2.2 then (r.1, r.2.1) else (tcpSend C env r.1 c.fn (c.frame .fin []), connFree r.2.1)

def pollConnect (io : Io) (c : TTTunnelConn) : Io × TTTunnelConn :=
  if c.connecting = false then (io, c)
  else
    -- `getsockopt` fails on a descriptor that is already closed
    match c.sock.bind fun _ => env.soError io.clock with
    | none => (io.tick, c)
    | some true =>
      let io := tcpSend C env io.tick c.fn (c.frame .openAck [])
      if c.pend = [] then (io, { c with connecting := false })
      else (ttSend env io c c.pend, { c with connecting := false, pend := [] })
    | some false => (tcpSend C env io.tick c.fn (c.frame .openFail []), connFree c)

def pollServe (io : Io) (c : TTTunnelConn) : Io × TTTunnelConn :=
  if c.used = true ∧ c.sock.isSome = true then connService C env io c else (io, c)

def pollHostConn (io : Io) (c : TTTunnelConn) : Io × TTTunnelConn :=
  if c.used = false then (io, c)
  else
    let r := pollConnect C env io c
    pollServe C env r.1 r.2

def pollRetryConn (io : Io) (c : TTTunnelConn) : Io × TTTunnelConn :=
  if c.used = true ∧ c.sock.isSome = true ∧ c.outbuf ≠ [] then connService C env io c else (io, c)

def rxHostConn (io : Io) (c : TTTunnelConn) (op : TTTcpOp) (payload : Bytes) : Io × TTTunnelConn :=
  match op with
  | .data =>
    if c.connecting then connReturnCredit C env io (connPend c payload)
    else if c.sock.isSome then connReturnCredit C env (ttSend env io c payload) c
    else connReturnCredit C env io c
  | .ack => (io, connTakeCredit c payload)
  | .fin => (io, connMarkPeerGone c)
  | _ => (io, c)

def rxClientConn (io : Io) (c : TTTunnelConn) (op : TTTcpOp) (payload : Bytes) :
    Io × TTTunnelConn :=
  match op with
  | .openFail => (io, connFree c)
  | .data =>
    if c.sock.isSome then connReturnCredit C env (ttSend env io c payload) c else (io, c)
  | .ack => (io, connTakeCredit c payload)
  | .fin => (io, connMarkPeerGone c)
  | _ => (io, c)

end

section

variable (C : Crypto) (env : TunnelEnv)

@[simp] theorem connFree_fn (c : TTTunnelConn) : (connFree c).fn = c.fn := rfl
@[simp] theorem connFree_used (c : TTTunnelConn) : (connFree c).used = false := rfl
@[simp] theorem connFree_unacked (c : TTTunnelConn) : (connFree c).unacked = 0 := rfl
@[simp] theorem connFree_ackDue (c : TTTunnelConn) : (connFree c).ackDue = 0 := rfl
@[simp] theorem connFree_pend (c : TTTunnelConn) : (connFree c).pend = [] := rfl
@[simp] theorem connFree_outbuf (c : TTTunnelConn) : (connFree c).outbuf = [] := rfl
@[simp] theorem connFree_sock (c : TTTunnelConn) : (connFree c).sock = none := rfl
@[simp] theorem connFree_connecting (c : TTTunnelConn) : (connFree c).connecting = false := rfl
@[simp] theorem connFree_peerGone (c : TTTunnelConn) : (connFree c).peerGone = false := rfl
@[simp] theorem connFree_connid (c : TTTunnelConn) : (connFree c).connid = c.connid := rfl
@[simp] theorem connFree_portIdx (c : TTTunnelConn) : (connFree c).portIdx = c.portIdx := rfl

structure SameSlot (c c' : TTTunnelConn) : Prop where
  used : c'.used = c.used
  fn : c'.fn = c.fn
  portIdx : c'.portIdx = c.portIdx
  connid : c'.connid = c.connid
  sock : c'.sock = c.sock
  connecting : c'.connecting = c.connecting
  peerGone : c'.peerGone = c.peerGone
  ackDue : c'.ackDue = c.ackDue
  pend : c'.pend = c.pend

inductive DrainAct (live : Prop) (c : TTTunnelConn) : TunnelEffect → TTTunnelConn → Prop
  | carrier (pkt : Bytes) : DrainAct live c (.lossless c.fn pkt none) c
  | sent (pkt : Bytes) (k : ℕ) : c.outbuf ≠ [] → c.unacked < ttTunnelTcpWindow → 0 < k →
      DrainAct live c (.lossless c.fn pkt (some (c.frame .data (c.outbuf.take k)))) (c.advance k)
  | swallowed (k : ℕ) : ¬live → c.outbuf ≠ [] → c.unacked < ttTunnelTcpWindow → 0 < k →
      DrainAct live c (.refused c.fn (c.frame .data (c.outbuf.take k))) (c.advance k)
  | kept (b : Bytes) : DrainAct live c (.refused c.fn (c.frame .data b)) c
  | read (b : Bytes) :
      DrainAct live c (.read c.fn (c.sock.getD 0) b) { c with outbuf := c.outbuf ++ b }

inductive DrainRun (live : Prop) : TTTunnelConn → List TunnelEffect → TTTunnelConn → Prop
  | refl (c : TTTunnelConn) : DrainRun live c [] c
  | step {c c' c'' : TTTunnelConn} {l : List TunnelEffect} {e : TunnelEffect} :
      DrainRun live c l c' → DrainAct live c' e c'' → DrainRun live c (l ++ [e]) c''

variable {live : Prop}

theorem DrainAct.sameSlot {c c' : TTTunnelConn} {e : TunnelEffect} (h : DrainAct live c e c') :
    SameSlot c c' := by
  cases h <;> constructor <;> rfl

theorem DrainRun.sameSlot {c c' : TTTunnelConn} {l : List TunnelEffect} (h : DrainRun live c l c') :
    SameSlot c c' := by
  induction h with
  | refl => constructor <;> rfl
  | step _ ha ih =>
    have hs := ha.sameSlot
    exact ⟨hs.used.trans ih.used, hs.fn.trans ih.fn, hs.portIdx.trans ih.portIdx,
      hs.connid.trans ih.connid, hs.sock.trans ih.sock, hs.connecting.trans ih.connecting,
      hs.peerGone.trans ih.peerGone, hs.ackDue.trans ih.ackDue, hs.pend.trans ih.pend⟩

theorem DrainRun.trans {c c' c'' : TTTunnelConn} {l l' : List TunnelEffect}
    (h : DrainRun live c l c') (h' : DrainRun live c' l' c'') : DrainRun live c (l ++ l') c'' := by
  induction h' with
  | refl => rwa [List.append_nil]
  | step _ ha ih =>
    rw [← List.append_assoc]
    exact ih.step ha

theorem DrainRun.carriers {c : TTTunnelConn} {l : List TunnelEffect}
    (hl : ∀ e ∈ l, IsCarrier c.fn e) : DrainRun live c l c := by
  induction l using List.reverseRecOn with
  | nil => exact .refl c
  | append_singleton l e ih =>
    obtain ⟨pkt, rfl⟩ := hl e (by simp)
    exact (ih fun e he => hl e (List.mem_append_left _ he)).step (.carrier pkt)

theorem DrainRun.mono {live' : Prop} {c c' : TTTunnelConn} {l : List TunnelEffect}
    (hl : live → live') (h : DrainRun live' c l c') : DrainRun live c l c' := by
  induction h with
  | refl => exact .refl _
  | step _ ha ih =>
    refine ih.step ?_
    cases ha with
    | carrier pkt => exact .carrier pkt
    | sent pkt k ho hu hk => exact .sent pkt k ho hu hk
    | swallowed k hn ho hu hk => exact .swallowed k (fun h => hn (hl h)) ho hu hk
    | kept b => exact .kept b
    | read b => exact .read b

theorem connReadMax_pos (io : Io) : 0 < connReadMax io := by
  unfold connReadMax
  split_ifs <;> simp

theorem tcpSendEx_drain {io : Io} {c : TTTunnelConn} {k : ℕ} (ho : c.outbuf ≠ [])
    (hu : c.unacked < ttTunnelTcpWindow) (hk : 0 < k) {r : Io × TTSend}
    (h : TcpSendSpec io c.fn (c.frame .data (c.outbuf.take k)) r) :
    ∃ l, io.Does r.1 c.fn l ∧
      DrainRun (io.Live c.fn) c l (if r.2 = .ok then c.advance k else c) := by
  obtain ⟨l, hl, ⟨hok, pkt, -, hd⟩ | ⟨hn, hd⟩⟩ := h.grows
  · refine ⟨_, hd, ?_⟩
    rw [if_pos hok]
    exact (DrainRun.carriers hl).step (.sent pkt k ho hu hk)
  · refine ⟨_, hd, ?_⟩
    split_ifs with hok
    · exact (DrainRun.carriers hl).step (.swallowed k (fun hlive => hn hlive hok) ho hu hk)
    · exact (DrainRun.carriers hl).step (.kept _)

theorem connFlushLoop_spec (n : ℕ) (io : Io) (c : TTTunnelConn) :
    ∃ l, io.Does (connFlushLoop C env n io c).1 c.fn l ∧
      DrainRun (io.Live c.fn) c l (connFlushLoop C env n io c).2.1 ∧
      ((connFlushLoop C env n io c).2.2 = .empty → (connFlushLoop C env n io c).2.1.outbuf = []) := by
  induction n generalizing io c with
  | zero =>
    refine ⟨[], Io.Does.refl io c.fn, .refl c, ?_⟩
    simp only [connFlushLoop]
    split_ifs with h
    · exact fun _ => h
    · simp
  | succ n ih =>
    unfold connFlushLoop
    by_cases hg : c.outbuf ≠ [] ∧ c.unacked < ttTunnelTcpWindow
    · rw [if_pos hg]
      have hk : 0 < min c.outbuf.length (connReadMax io) :=
        lt_min (List.length_pos_iff.mpr hg.1) (connReadMax_pos io)
      obtain ⟨l, hd, hr⟩ := tcpSendEx_drain hg.1 hg.2 hk (tcpSendEx_spec C env io c.fn _)
      dsimp only
      split
      · rename_i hq
        rw [hq, if_neg (by decide)] at hr
        exact ⟨l, hd, hr, by simp⟩
      · rename_i hq
        rw [hq, if_neg (by decide)] at hr
        exact ⟨l, hd, hr, by simp⟩
      · rename_i hq
        rw [hq, if_pos rfl] at hr
        obtain ⟨l', hd', hr', he⟩ := ih (tcpSendEx C env io c.fn (c.frame .data
          (c.outbuf.take (min c.outbuf.length (connReadMax io))))).1
          (c.advance (min c.outbuf.length (connReadMax io)))
        exact ⟨l ++ l', hd.trans hd', hr.trans (hr'.mono hd.live), he⟩
    · rw [if_neg hg]
      refine ⟨[], Io.Does.refl io c.fn, .refl c, ?_⟩
      dsimp only
      split_ifs with h
      · exact fun _ => h
      · simp

theorem connFlushOut_spec (io : Io) (c : TTTunnelConn) :
    ∃ l, io.Does (connFlushOut C env io c).1 c.fn l ∧
      DrainRun (io.Live c.fn) c l (connFlushOut C env io c).2.1 ∧
      ((connFlushOut C env io c).2.2 = .empty → (connFlushOut C env io c).2.1.outbuf = []) :=
  connFlushLoop_spec C env _ io c

def DrainSpec (live : Prop) (io : Io) (c : TTTunnelConn) (r : Io × TTTunnelConn × Bool) : Prop :=
  ∃ l b, io.Does r.1 c.fn (l ++ if b = [] then [] else [.read c.fn (c.sock.getD 0) b]) ∧
    DrainRun live c l r.2.1 ∧ (r.2.2 = true → b = [])

theorem DrainSpec.done {io io' : Io} {c c' : TTTunnelConn} {l : List TunnelEffect} (res : Bool)
    (hd : io.Does io' c.fn l) (hr : DrainRun live c l c') : DrainSpec live io c (io', c', res) := by
  refine ⟨l, [], ?_, hr, fun _ => rfl⟩
  rw [if_pos rfl, List.append_nil]
  exact hd

theorem DrainSpec.after {io io' : Io} {c c' : TTTunnelConn} {l : List TunnelEffect}
    {r : Io × TTTunnelConn × Bool} (hd : io.Does io' c.fn l) (hr : DrainRun live c l c')
    (h : DrainSpec live io' c' r) : DrainSpec live io c r := by
  obtain ⟨l', b, hd', hr', hb⟩ := h
  have hs := hr.sameSlot
  rw [hs.fn, hs.sock] at hd'
  refine ⟨l ++ l', b, ?_, hr.trans hr', hb⟩
  rw [List.append_assoc]
  exact hd.trans hd'

theorem connOutAdd_eq_some {c c' : TTTunnelConn} {b : Bytes} (h : connOutAdd c b = some c') :
    c' = { c with outbuf := c.outbuf ++ b } := by
  unfold connOutAdd at h
  split_ifs at h
  exact (Option.some.inj h).symm

theorem DrainSpec.read {io io' : Io} {c c' : TTTunnelConn} {b : Bytes}
    (hd : io.Does io' c.fn [.read c.fn (c.sock.getD 0) b]) (h : connOutAdd c b = some c') :
    DrainSpec live io c (io', c', true) := by
  refine DrainSpec.done true hd ?_
  rw [connOutAdd_eq_some h]
  exact (DrainRun.refl c).step (.read b)

theorem connDrainLoop_spec (n : ℕ) (io : Io) (c : TTTunnelConn) (hlive : live → io.Live c.fn) :
    DrainSpec live io c (connDrainLoop C env n io c) := by
  induction n generalizing io c with
  | zero => exact DrainSpec.done true (Io.Does.refl io c.fn) (.refl c)
  | succ n ih =>
    unfold connDrainLoop
    split
    · exact DrainSpec.done true (Io.Does.tick io c.fn) (.refl c)
    · exact DrainSpec.done false (Io.Does.tick io c.fn) (.refl c)
    rename_i b hb
    dsimp only
    by_cases he : b.take (connReadMax io) = []
    · rw [if_pos he]
      exact DrainSpec.done false (Io.Does.tick io c.fn) (.refl c)
    rw [if_neg he]
    have hread := (Io.Does.tick io c.fn).trans
      (Io.Does.emit io.tick c.fn (.read c.fn (c.sock.getD 0) (b.take (connReadMax io))))
    split
    · refine ⟨[], b.take (connReadMax io), ?_, .refl c, by simp⟩
      rw [if_neg he]
      exact hread
    · rename_i c₁ hc₁
      have hstep : DrainRun live c [.read c.fn (c.sock.getD 0) (b.take (connReadMax io))] c₁ := by
        rw [connOutAdd_eq_some hc₁]
        exact (DrainRun.refl c).step (.read _)
      have hfn := hstep.sameSlot.fn
      refine DrainSpec.after hread hstep ?_
      obtain ⟨l, hd, hr, -⟩ := connFlushOut_spec C env
        (io.tick.emit (.read c.fn (c.sock.getD 0) (b.take (connReadMax io)))) c₁
      have hl := fun h => hread.live (hlive h)
      rw [← hfn] at hl
      have hr := hr.mono hl
      split
      · exact DrainSpec.done false hd hr
      · exact DrainSpec.done true hd hr
      · refine DrainSpec.after hd hr (ih _ _ ?_)
        rw [hr.sameSlot.fn]
        exact fun h => hd.live (hl h)

theorem connDrainOut_live (io : Io) (c : TTTunnelConn) (hlive : live → io.Live c.fn) :
    DrainSpec live io c (connDrainOut C env io c) := by
  obtain ⟨l, hd, hr, -⟩ := connFlushOut_spec C env io c
  have hr := hr.mono hlive
  unfold connDrainOut
  dsimp only
  split
  · exact DrainSpec.done false hd hr
  · exact DrainSpec.done true hd hr
  · refine DrainSpec.after hd hr (connDrainLoop_spec C env _ _ _ ?_)
    rw [hr.sameSlot.fn]
    exact fun h => hd.live (hlive h)

def SendsData (io : Io) (c : TTTunnelConn) : Prop :=
  c.unacked < ttTunnelTcpWindow ∧ (c.outbuf ≠ [] ∨ ∃ b, env.recv io.clock = .data b ∧ b ≠ [])

theorem connFlushOut_full {io : Io} {c : TTTunnelConn} (hu : ttTunnelTcpWindow - c.unacked = 0)
    (ho : c.outbuf ≠ []) : connFlushOut C env io c = (io, c, .congested) := by
  rw [connFlushOut, hu, connFlushLoop, if_neg ho]

theorem connFlushOut_nil {io : Io} {c : TTTunnelConn} (ho : c.outbuf = []) :
    connFlushOut C env io c = (io, c, .empty) := by
  rw [connFlushOut]
  cases ttTunnelTcpWindow - c.unacked <;> simp [connFlushLoop, ho]

theorem connDrainOut_unsent {io : Io} {c : TTTunnelConn} (h : ¬SendsData env io c) :
    DrainSpec live io c (connDrainOut C env io c) := by
  by_cases ho : c.outbuf = []
  · rw [connDrainOut, connFlushOut_nil C env ho]
    cases hn : ttTunnelTcpWindow + 1 - c.unacked with
    | zero => exact DrainSpec.done true (Io.Does.refl io c.fn) (.refl c)
    | succ n =>
      dsimp only
      rw [connDrainLoop]
      split
      · exact DrainSpec.done true (Io.Does.tick io c.fn) (.refl c)
      · exact DrainSpec.done false (Io.Does.tick io c.fn) (.refl c)
      rename_i b hb
      dsimp only
      by_cases he : b.take (connReadMax io) = []
      · rw [if_pos he]
        exact DrainSpec.done false (Io.Does.tick io c.fn) (.refl c)
      rw [if_neg he]
      have hfull : ttTunnelTcpWindow - c.unacked = 0 := by
        by_contra hne
        refine h ⟨by omega, Or.inr ⟨b, hb, ?_⟩⟩
        rintro rfl
        simp at he
      have hread := (Io.Does.tick io c.fn).trans
        (Io.Does.emit io.tick c.fn (.read c.fn (c.sock.getD 0) (b.take (connReadMax io))))
      split
      · refine ⟨[], b.take (connReadMax io), ?_, .refl c, by simp⟩
        rw [if_neg he]
        exact hread
      · rename_i c₁ hc₁
        have hne : c₁.outbuf ≠ [] ∧ ttTunnelTcpWindow - c₁.unacked = 0 := by
          rw [connOutAdd_eq_some hc₁]
          exact ⟨fun h => he (List.append_eq_nil_iff.mp h).2, hfull⟩
        rw [connFlushOut_full C env hne.2 hne.1]
        exact DrainSpec.read hread hc₁
  · have hu : ttTunnelTcpWindow - c.unacked = 0 := by
      by_contra hne
      exact h ⟨by omega, Or.inl ho⟩
    rw [connDrainOut, connFlushOut_full C env hu ho]
    exact DrainSpec.done true (Io.Does.refl io c.fn) (.refl c)

theorem connDrainOut_spec {io : Io} {c : TTTunnelConn}
    (h : live → io.Live c.fn ∨ ¬SendsData env io c) :
    DrainSpec live io c (connDrainOut C env io c) := by
  by_cases hs : SendsData env io c
  · exact connDrainOut_live C env io c fun hl => (h hl).resolve_right (not_not.mpr hs)
  · exact connDrainOut_unsent C env hs

theorem connFlushLoop_unacked (n : ℕ) (io : Io) (c : TTTunnelConn) (hc : c.unacked ≤ ttTunnelTcpWindow) :
    (connFlushLoop C env n io c).2.1.unacked ≤ ttTunnelTcpWindow ∧
      ((connFlushLoop C env n io c).2.2 = .empty → c.outbuf ≠ [] →
        c.unacked < (connFlushLoop C env n io c).2.1.unacked) ∧
      c.unacked ≤ (connFlushLoop C env n io c).2.1.unacked := by
  induction n generalizing io c with
  | zero =>
    simp only [connFlushLoop]
    refine ⟨hc, ?_, le_rfl⟩
    intro h ho
    rw [if_neg ho] at h
    cases h
  | succ n ih =>
    unfold connFlushLoop
    by_cases hg : c.outbuf ≠ [] ∧ c.unacked < ttTunnelTcpWindow
    · rw [if_pos hg]
      dsimp only
      split
      · exact ⟨hc, by simp, le_rfl⟩
      · exact ⟨hc, by simp, le_rfl⟩
      · obtain ⟨h1, -, h3⟩ := ih (tcpSendEx C env io c.fn (c.frame .data
          (c.outbuf.take (min c.outbuf.length (connReadMax io))))).1
          (c.advance (min c.outbuf.length (connReadMax io))) hg.2
        exact ⟨h1, fun _ _ => Nat.lt_of_succ_le h3, (Nat.le_succ _).trans h3⟩
    · rw [if_neg hg]
      refine ⟨hc, ?_, le_rfl⟩
      intro h ho
      rw [if_neg ho] at h
      cases h

theorem connDrainLoop_fuel (n k : ℕ) (io : Io) (c : TTTunnelConn) (hc : c.unacked ≤ ttTunnelTcpWindow)
    (hn : ttTunnelTcpWindow - c.unacked < n) :
    connDrainLoop C env (n + k) io c = connDrainLoop C env n io c := by
  induction n generalizing io c with
  | zero => omega
  | succ n ih =>
    rw [Nat.succ_add]
    unfold connDrainLoop
    split
    · rfl
    · rfl
    rename_i b hb
    dsimp only
    by_cases he : b.take (connReadMax io) = []
    · rw [if_pos he, if_pos he]
    rw [if_neg he, if_neg he]
    split
    · rfl
    · rename_i c₁ hc₁
      have ho : c₁.outbuf ≠ [] ∧ c₁.unacked = c.unacked := by
        rw [connOutAdd_eq_some hc₁]
        exact ⟨fun h => he (List.append_eq_nil_iff.mp h).2, rfl⟩
      obtain ⟨h1, h2, -⟩ := connFlushLoop_unacked C env (ttTunnelTcpWindow - c₁.unacked)
        (io.tick.emit (.read c.fn (c.sock.getD 0) (b.take (connReadMax io)))) c₁ (ho.2 ▸ hc)
      rw [connFlushOut]
      split
      · rfl
      · rfl
      · rename_i hemp
        have := h2 hemp ho.1
        exact ih _ _ h1 (by omega)

end

end TkTox
