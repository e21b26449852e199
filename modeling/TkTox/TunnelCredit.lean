import TkTox.Instance
import TkTox.TunnelLife

/-!
Credit of a live connection: what the sender counts as unacknowledged is in flight as DATA,
in flight as credit, or owed by the receiver. Since the receiver owes less than a batch, a full
window always has something in flight.
-/

namespace TkTox

def dataCount (l : List TcpFrame) : ℕ := l.countP fun f => f.op = .data

def TcpFrame.credit (f : TcpFrame) : ℕ := if f.op = .ack then creditOf f.payload else 0

def creditSum (l : List TcpFrame) : ℕ := (l.map TcpFrame.credit).sum

@[simp] theorem dataCount_nil : dataCount [] = 0 := rfl
@[simp] theorem creditSum_nil : creditSum [] = 0 := rfl

@[simp] theorem dataCount_append (l m : List TcpFrame) :
    dataCount (l ++ m) = dataCount l + dataCount m := by
  simp [dataCount]

@[simp] theorem creditSum_append (l m : List TcpFrame) :
    creditSum (l ++ m) = creditSum l + creditSum m := by
  simp [creditSum]

theorem dataCount_cons (f : TcpFrame) (l : List TcpFrame) :
    dataCount (f :: l) = (if f.op = .data then 1 else 0) + dataCount l := by
  by_cases h : f.op = .data <;> simp [dataCount, h, Nat.add_comm]

theorem creditSum_cons (f : TcpFrame) (l : List TcpFrame) :
    creditSum (f :: l) = f.credit + creditSum l := by
  simp [creditSum]

theorem creditOf_u16be {n : ℕ} (h : n < 2 ^ 16) : creditOf (u16be n) = n := by
  have : n / 256 % 256 * 256 + n % 256 = n := by omega
  simp [creditOf, readU16, u16be, this]

theorem Ctl.weightless {f : TcpFrame} {out gone : List TcpFrame} (h : Ctl f out gone)
    (hd : f.op ≠ .data) (ha : f.op ≠ .ack) : dataCount out = 0 ∧ creditSum out = 0 := by
  obtain ⟨rfl, -⟩ | ⟨rfl, -⟩ := h
  · simp [dataCount_cons, creditSum_cons, TcpFrame.credit, hd, ha]
  · simp

def Pipe.Joined (p : Pipe) : Prop :=
  (p.conn .client).used = true ∧ ((p.conn .host).used = true ∨ ¬p.NoOpen)

structure Pipe.Credit (p : Pipe) : Prop where
  batch : ∀ i, (p.conn i).ackDue < ttTunnelAckBatch
  window : ∀ i, (p.conn i).unacked ≤ ttTunnelTcpWindow
  balance : p.Joined → ∀ i, (p.conn i).unacked =
    dataCount (p.flight i.other) + creditSum (p.flight i) + (p.conn i.other).ackDue

section

variable {cfg : LinkCfg} {K : MoveCond} {p p' : Pipe} {i : Side}

theorem Pipe.Credit.exchange (h : p.Credit) {q : Pipe} {d k : ℕ} (hconn : q.conn = p.conn)
    (hother : q.flight i.other = p.flight i.other)
    (hd : dataCount (p.flight i) = d + dataCount (q.flight i))
    (hk : creditSum (p.flight i) = k + creditSum (q.flight i))
    {c : TTTunnelConn} {out gone : List TcpFrame} {rd wr : Bytes}
    (hb : c.ackDue < ttTunnelAckBatch) (hw : c.unacked ≤ ttTunnelTcpWindow)
    (hj : (q.put i c out gone rd wr).Joined → p.Joined ∧
      (k ≤ (p.conn i).unacked → c.unacked + k = (p.conn i).unacked + dataCount out) ∧
      c.ackDue + creditSum out = (p.conn i).ackDue + d) :
    (q.put i c out gone rd wr).Credit where
  batch j := by
    obtain rfl | rfl := Side.cases i j
    · rw [Pipe.put_conn_self]
      exact hb
    · rw [Pipe.put_conn_other, hconn]
      exact h.batch i.other
  window j := by
    obtain rfl | rfl := Side.cases i j
    · rw [Pipe.put_conn_self]
      exact hw
    · rw [Pipe.put_conn_other, hconn]
      exact h.window i.other
  balance hjoin j := by
    obtain ⟨hp, hu, ha⟩ := hj hjoin
    have hi := h.balance hp i
    have ho := h.balance hp i.other
    rw [Side.other_other] at ho
    have hu' := hu (by omega)
    obtain rfl | rfl := Side.cases i j
    · rw [Pipe.put_conn_self, Pipe.put_flight_other, Pipe.put_flight_self, Pipe.put_conn_other,
        dataCount_append, hother, hconn]
      omega
    · rw [Side.other_other, Pipe.put_conn_other, Pipe.put_flight_self, Pipe.put_flight_other,
        Pipe.put_conn_self, creditSum_append, hother, hconn]
      omega

theorem Pipe.Credit.put (h : p.Credit) {c : TTTunnelConn} {out gone : List TcpFrame} {rd wr : Bytes}
    (hb : c.ackDue < ttTunnelAckBatch) (hw : c.unacked ≤ ttTunnelTcpWindow)
    (hj : (p.put i c out gone rd wr).Joined → p.Joined ∧
      c.unacked = (p.conn i).unacked + dataCount out ∧ c.ackDue + creditSum out = (p.conn i).ackDue) :
    (p.put i c out gone rd wr).Credit :=
  h.exchange (d := 0) (k := 0) rfl rfl (by simp) (by simp) hb hw fun hp =>
    ⟨(hj hp).1, fun _ => (hj hp).2.1, (hj hp).2.2⟩

theorem Pipe.Credit.rx (h : p.Credit) {f : TcpFrame} {rest : List TcpFrame}
    (hf : p.flight i = f :: rest) {c : TTTunnelConn} {out gone : List TcpFrame} {wr : Bytes}
    (hb : c.ackDue < ttTunnelAckBatch) (hw : c.unacked ≤ ttTunnelTcpWindow)
    (hj : ((p.pop i rest).put i c out gone [] wr).Joined → p.Joined ∧
      (f.credit ≤ (p.conn i).unacked → c.unacked + f.credit = (p.conn i).unacked + dataCount out) ∧
      c.ackDue + creditSum out = (p.conn i).ackDue + if f.op = .data then 1 else 0) :
    ((p.pop i rest).put i c out gone [] wr).Credit := by
  refine h.exchange (q := p.pop i rest) rfl (Pipe.pop_flight_other ..) ?_ ?_ hb hw hj
  · rw [hf, Pipe.pop_flight_self, dataCount_cons]
  · rw [hf, Pipe.pop_flight_self, creditSum_cons]

theorem joined_of_put {c : TTTunnelConn} {out gone : List TcpFrame} {rd wr : Bytes}
    (h : (p.put i c out gone rd wr).Joined) (hc : c.used = (p.conn i).used)
    (ho : ∀ f ∈ out, f.op ≠ .open) : p.Joined := by
  have hused : ∀ j, ((p.put i c out gone rd wr).conn j).used = (p.conn j).used := by
    intro j
    obtain rfl | rfl := Side.cases i j
    · rw [Pipe.put_conn_self, hc]
    · rw [Pipe.put_conn_other]
  rw [Pipe.Joined, hused, hused] at h
  exact ⟨h.1, h.2.imp_right fun hn hp => hn (noOpen_put hp ho)⟩

theorem joined_of_put_nil {c : TTTunnelConn} {gone : List TcpFrame} {rd wr : Bytes}
    (h : (p.put i c [] gone rd wr).Joined) (hc : c.used = (p.conn i).used) : p.Joined :=
  joined_of_put h hc fun f hf => by cases hf

theorem not_joined_of_unused (hn : p.NoOpen) (hu : (p.conn i).used = false) : ¬p.Joined := by
  intro hj
  cases i with
  | client => simp [hj.1] at hu
  | host => simp [hj.2.resolve_right (not_not.mpr hn)] at hu

theorem Pipe.Life.not_joined_of_gone (h : p.Life cfg) (hg : (p.conn i).peerGone = true) : ¬p.Joined :=
  not_joined_of_unused (h.noOpen_of_gone hg) (h.gone i hg)

theorem not_joined_put {c : TTTunnelConn} {out gone : List TcpFrame} {rd wr : Bytes}
    (hc : c.used = false) (hn : i = .host → p.NoOpen) :
    ¬(p.put i c out gone rd wr).Joined := by
  cases i with
  | client =>
    intro hj
    have := hj.1
    rw [Pipe.put_conn_self, hc] at this
    cases this
  | host =>
    refine not_joined_of_unused (i := .host) (fun f hf => ?_) ?_
    · rw [Pipe.put_flight_self] at hf
      exact hn rfl f hf
    · rw [Pipe.put_conn_self]
      exact hc

def Pipe.NoLostAck (p : Pipe) : Prop := ∀ i, ∀ f ∈ p.lost i, f.op ≠ .ack

theorem Credited.op_eq {c c' : TTTunnelConn} {out gone : List TcpFrame} (h : Credited c c' out gone)
    {g : TcpFrame} (hg : g ∈ out) : g.op = .ack := by
  cases h with
  | count => cases hg
  | batch _ hctl => rw [hctl.mem hg, TTTunnelConn.frame]

theorem Stored.credited {c c₁ c' : TTTunnelConn} {b wr : Bytes} {out gone : List TcpFrame}
    (hs : Stored K i c b c₁ wr) (hcr : Credited c₁ c' out gone) (hb : c.ackDue < ttTunnelAckBatch)
    (hg : ∀ f ∈ gone, f.op ≠ .ack) :
    c'.ackDue < ttTunnelAckBatch ∧ c'.unacked = c.unacked ∧ dataCount out = 0 ∧
      c'.ackDue + creditSum out = c.ackDue + 1 := by
  obtain ⟨-, -, -, -, -, -, ha, hu, -⟩ := hs.same
  cases hcr with
  | count hlt =>
    rw [ha] at hlt
    simpa [hu, ha] using hlt
  | batch hge hctl =>
    have h4 : c₁.ackDue + 1 = 4 := by
      simp only [ttTunnelAckBatch] at hge hb
      omega
    obtain ⟨rfl, -⟩ | ⟨-, rfl⟩ := hctl
    · have hcredit : creditOf (u16be (c.ackDue + 1)) = c.ackDue + 1 :=
        creditOf_u16be (by omega)
      refine ⟨by simp, hu, by simp [dataCount_cons, TTTunnelConn.frame], ?_⟩
      simp [creditSum_cons, TcpFrame.credit, TTTunnelConn.frame, hcredit, ha]
    · exact absurd rfl (hg _ (List.mem_singleton_self _))

theorem joined_of_pop {f : TcpFrame} {rest : List TcpFrame} (hf : p.flight i = f :: rest)
    (hj : (p.pop i rest).Joined) : p.Joined := by
  exact ⟨hj.1, hj.2.imp_right fun hn hp => hn fun g hg => hp g (mem_of_mem_pop hf hg)⟩

theorem not_joined_of_fin (hl : p.Life cfg) (hu : (p.conn i).used = true) {f : TcpFrame}
    (hf : f ∈ p.flight i) (hop : f.op = .fin) : ¬p.Joined := by
  refine not_joined_of_unused ?_ (hl.fin i f hf hop)
  cases i with
  | host => exact hl.noOpen_of_used hu
  | client =>
    by_contra hn
    rw [(hl.opening hn).2.1] at hf
    cases hf

theorem Rx.credit (hl : p.Life cfg) (h : p.Credit) {f : TcpFrame} {rest : List TcpFrame}
    (hf : p.flight i = f :: rest) {c' : TTTunnelConn} {out gone : List TcpFrame} {wr : Bytes}
    (hr : Rx cfg K i (p.conn i) f c' out gone wr) (hg : ∀ g ∈ gone, g.op ≠ .ack) :
    ((p.pop i rest).put i c' out gone [] wr).Credit := by
  obtain ⟨hq, hno⟩ := hl.pop hf
  have hb := h.batch i
  have hw := h.window i
  cases hr with
  | unused hu hop => exact h.rx hf hb hw fun hj => absurd hj (not_joined_put hu hno)
  | ignored hu hop =>
    have hd : f.op ≠ .data ∧ f.op ≠ .ack := by
      obtain h | h | ⟨h, -⟩ := hop <;> simp [h]
    refine h.rx hf hb hw fun hj => ⟨joined_of_pop hf (joined_of_put_nil hj rfl), ?_, ?_⟩
    · simp [TcpFrame.credit, hd.2]
    · simp [hd.1]
  | closed hi hu hop hs =>
    refine h.rx hf hb hw fun hj => absurd (joined_of_pop hf (joined_of_put_nil hj rfl)) ?_
    obtain hg | hs' := hl.sock i hu
    · exact hl.not_joined_of_gone hg
    · simp [hs] at hs'
  | openFail => exact h.rx hf (by simp) (by simp) fun hj => absurd hj (not_joined_put rfl hno)
  | refusedOpen hi hu hop hc hctl =>
    obtain rfl | ⟨c₀, rfl⟩ := hc
    · exact h.rx hf hb hw fun hj => absurd hj (not_joined_put hu hno)
    · exact h.rx hf (by simp) (by simp) fun hj => absurd hj (not_joined_put rfl hno)
  | data hu hop hs hcr =>
    obtain ⟨h1, h2, h3, h4⟩ := hs.credited hcr hb hg
    have hused : c'.used = (p.conn i).used := hcr.same.1.trans hs.same.1
    refine h.rx hf h1 (h2 ▸ hw) fun hj =>
      ⟨joined_of_pop hf (joined_of_put hj hused fun g hg => hcr.op_eq hg ▸ by decide), ?_, ?_⟩
    · simp [TcpFrame.credit, hop, h2, h3]
    · rw [h4, if_pos hop]
  | ack hu hop =>
    have hcr : f.credit = creditOf f.payload := by simp [TcpFrame.credit, hop]
    unfold connTakeCredit
    dsimp only
    split_ifs with hz
    · exact h.rx hf (by simp) (by simp) fun hj => absurd hj (not_joined_put rfl hno)
    · refine h.rx hf hb ((Nat.sub_le ..).trans hw) fun hj =>
        ⟨joined_of_pop hf (joined_of_put_nil hj rfl), ?_, ?_⟩
      · intro hle
        rw [hcr] at hle ⊢
        simp [Nat.sub_add_cancel hle]
      · simp [hop]
  | fin hu hop hset =>
    unfold connMarkPeerGone
    split_ifs with hz
    · exact h.rx hf (by simp) (by simp) fun hj => absurd hj (not_joined_put rfl hno)
    · exact h.rx hf hb hw fun hj => absurd (joined_of_pop hf (joined_of_put_nil hj rfl))
        (not_joined_of_fin hl hu (by simp [hf]) hop)
  | opened s b hi hu hop hout =>
    subst hi
    have hidle := hl.idle .host hu
    have hnoOpen : ¬p.NoOpen := fun hn => hn f (by simp [hf]) hop
    have hweight : dataCount out = 0 ∧ creditSum out = 0 := by
      cases b with
      | true => simp [hout.1]
      | false => exact Ctl.weightless hout (fun h => by cases h) fun h => by cases h
    refine h.rx hf (by simp [connAlloc]) (by simp [connAlloc]) fun hj => ⟨⟨hj.1, Or.inr hnoOpen⟩, ?_, ?_⟩
    · simp [TcpFrame.credit, hop, connAlloc, hidle.unacked, hweight.1]
    · simp [hop, connAlloc, hidle.ackDue, hweight.2]

theorem Move.credit (hl : p.Life cfg) (h : p.Credit) (hlive : ∀ i, K.live i) (hm : Move cfg K p p')
    (hlost : p'.NoLostAck) : p'.Credit := by
  cases hm with
  | @accept out gone fd hacc hctl =>
    obtain ⟨hunused, hfl⟩ := hl.fresh hacc
    have hidle := fun i => hl.idle i (hunused i)
    obtain ⟨h1, h2⟩ := hctl.weightless (fun h => by cases h) fun h => by cases h
    refine ⟨fun i => ?_, fun i => ?_, fun _ i => ?_⟩
    · cases i with
      | client => simp [connAlloc]
      | host => exact h.batch .host
    · cases i with
      | client => simp [connAlloc]
      | host => exact h.window .host
    · cases i with
      | client =>
        change 0 = dataCount (p.flight .host ++ out) + creditSum (p.flight .client) + (p.conn .host).ackDue
        rw [hfl, hfl, (hidle .host).ackDue, List.nil_append, h1]
        rfl
      | host =>
        change (p.conn .host).unacked = dataCount (p.flight .client) + creditSum (p.flight .host ++ out) + 0
        rw [hfl, hfl, (hidle .host).unacked, List.nil_append, h2]
        rfl
  | sent i k hs ho hu hk =>
    refine h.put (h.batch i) hu fun hj => ⟨joined_of_put hj rfl ?_, ?_, ?_⟩
    · intro f hf
      rw [List.mem_singleton.mp hf]
      exact fun h => by cases h
    · simp [TTTunnelConn.advance, dataCount_cons, TTTunnelConn.frame]
    · simp [TTTunnelConn.advance, creditSum_cons, TTTunnelConn.frame, TcpFrame.credit]
  | swallowed i k hn => exact absurd (hlive i) hn
  | read i b hs => exact h.put (h.batch i) (h.window i) fun hj => ⟨joined_of_put_nil hj rfl, by simp, by simp⟩
  | close i b hs hctl =>
    refine h.put (by simp) (by simp) fun hj => absurd hj (not_joined_put rfl ?_)
    rintro rfl
    exact hl.noOpen_of_used hs.1
  | connected n hu hc hw hctl =>
    obtain ⟨h1, h2⟩ := hctl.weightless (fun h => by cases h) fun h => by cases h
    refine h.put (h.batch .host) (h.window .host) fun hj => ⟨joined_of_put hj rfl ?_, by simp [h1], by simp [h2]⟩
    intro f hf
    rw [hctl.mem hf]
    exact fun h => by cases h
  | connectFailed hs hc hctl =>
    exact h.put (by simp) (by simp) fun hj => absurd hj (not_joined_put rfl fun _ => hl.noOpen_of_used hs.1)
  | rx i f rest hf hr =>
    refine hr.credit hl h hf ?_
    intro g hg
    exact hlost i g (by simp [hg])

theorem mem_lost_put {f : TcpFrame} {j : Side} {c : TTTunnelConn} {out gone : List TcpFrame}
    {rd wr : Bytes} (h : f ∈ p.lost i) : f ∈ (p.put j c out gone rd wr).lost i := by
  obtain rfl | rfl := Side.cases j i
  · rw [Pipe.put_lost_self]
    exact List.mem_append_left _ h
  · rw [Pipe.put_lost_other]
    exact h

theorem Move.lost_sub (hm : Move cfg K p p') (i : Side) : ∀ f ∈ p.lost i, f ∈ p'.lost i := by
  intro f hf
  cases hm with
  | @accept out gone fd =>
    have h : f ∈ (p.put .client (p.conn .client) out gone [] []).lost i := mem_lost_put hf
    exact h
  | sent => exact mem_lost_put hf
  | swallowed => exact mem_lost_put hf
  | read => exact mem_lost_put hf
  | close => exact mem_lost_put hf
  | connected => exact mem_lost_put hf
  | connectFailed => exact mem_lost_put hf
  | rx j g rest hfl hr => exact mem_lost_put (p := p.pop j rest) hf

theorem Moves.credit (hl : p.Life cfg) (h : p.Credit) (hlive : ∀ i, K.live i) (hm : Moves cfg K p p')
    (hlost : p'.NoLostAck) : p'.Credit := by
  induction hm with
  | refl => exact h
  | tail hms hm ih =>
    exact hm.credit (Moves.life hl hms) (ih fun i f hf => hlost i f (hm.lost_sub i f hf)) hlive hlost

end

section

variable {C : Crypto} {cfg : LinkCfg} {w : Link}

theorem pollConnect_live {env : TunnelEnv} {io : Io} {c : TTTunnelConn} (h : io.Live c.fn) :
    (pollConnect C env io c).1.Live c.fn := by
  have htick : io.tick.Live c.fn := h
  have hack := (tcpSend_puts C env io.tick c.fn c.portIdx c.connid []
    (by decide : TTTcpOp.openAck ≠ .data)).2 htick
  have hfail := (tcpSend_puts C env io.tick c.fn c.portIdx c.connid []
    (by decide : TTTcpOp.openFail ≠ .data)).2 htick
  obtain ⟨io', -, hl, h⟩ | ⟨-, -, h⟩ | ⟨-, -, -, h⟩ | ⟨-, -, h⟩ := pollConnect_cases env io c
  · rw [h]
    exact hl ‹_›
  · rw [h]
    exact hfail
  · rw [h]
    exact hack
  · rw [h]
    exact hack

theorem stepCond_live (hl : w.pipe.Life cfg) (h : ∀ i, (w.io i).Live (cfg.fn i)) (op : LinkOp) (i : Side) :
    (stepCond C cfg w op).live i := by
  refine Or.inl ?_
  unfold served
  split
  · by_cases hu : (w.conn .host).used = true
    · rw [← (hl.conn .host hu).1]
      refine pollConnect_live ?_
      rw [show (w.conn .host).fn = cfg.fn .host from (hl.conn .host hu).1]
      exact h .host
    · have hidle := (hl.idle .host (Bool.eq_false_iff.mpr hu)).connecting
      rw [pollConnect, if_pos (show (w.conn .host).connecting = false from hidle)]
      exact h .host
  · exact h i

/-- The steps of a connection on a live channel: every packet arrives as it was built, and the
session with the peer is active, or the channel is not encrypted. -/
def LiveStep (C : Crypto) (cfg : LinkCfg) (w : Link) (op : LinkOp) : Prop :=
  Intact C cfg w op ∧ ∀ i, (w.io i).Live (cfg.fn i)

instance (C : Crypto) (cfg : LinkCfg) (w : Link) (op : LinkOp) : Decidable (LiveStep C cfg w op) :=
  inferInstanceAs (Decidable (_ ∧ _))

def TunnelEffect.refusedAck : TunnelEffect → Bool
  | .refused _ f => f.op = .ack
  | _ => false

def Link.NoRefusedAck (w : Link) : Prop := ∀ i, ∀ e ∈ w.log i, e.refusedAck = false

instance (w : Link) : Decidable w.NoRefusedAck :=
  inferInstanceAs (Decidable (∀ i, ∀ e ∈ w.log i, e.refusedAck = false))

theorem pipe_noLostAck (h : w.NoRefusedAck) : w.pipe.NoLostAck := by
  intro i f hf
  obtain ⟨e, he, hef⟩ := List.mem_filterMap.mp hf
  cases e with
  | refused fn g =>
    simp only [TunnelEffect.lostCtl] at hef
    split_ifs at hef
    cases hef
    simpa [TunnelEffect.refusedAck] using h i _ he
  | _ => cases hef

theorem log_linkStep (op : LinkOp) (i : Side) : w.log i <+: (linkStep C cfg w op).log i := by
  have hact : ∀ (w' : Link) (j : Side) (g : Io → TTTunnelConn → Io × TTTunnelConn),
      w'.log i <+: (w'.act j g).log i := by
    intro w' j g
    obtain rfl | rfl := Side.cases j i
    · rw [act_log]
      exact List.prefix_append ..
    · simp [Link.act]
  cases op with
  | accept fd =>
    simp only [linkStep]
    split_ifs
    · exact List.prefix_rfl
    · exact hact w .client _
  | poll j => exact hact w j _
  | retry j =>
    simp only [linkStep]
    split_ifs
    · exact List.prefix_rfl
    · exact hact w j _
  | deliver j =>
    simp only [linkStep]
    split
    · exact List.prefix_rfl
    · exact hact (w.popped j _) j _
  | session j tun => exact List.prefix_rfl

theorem credit_start (tun : Side → Option (ℕ → TTSession)) : (Link.start tun).pipe.Credit where
  batch _ := Nat.zero_lt_succ 3
  window _ := Nat.zero_le _
  balance h := by cases h.1

theorem linkStep_credit (hl : w.pipe.Life cfg) (h : w.pipe.Credit) {op : LinkOp}
    (ho : LiveStep C cfg w op) (hack : (linkStep C cfg w op).NoRefusedAck) :
    (linkStep C cfg w op).pipe.Credit :=
  Moves.credit hl h (stepCond_live hl ho.2 op) (linkStep_moves hl.toWf op ho.1) (pipe_noLostAck hack)

theorem reach_credit {tun : Side → Option (ℕ → TTSession)}
    (hr : Machine.Reach (linkStep C cfg) (LiveStep C cfg) (Link.start tun) w) (hack : w.NoRefusedAck) :
    w.pipe.Life cfg ∧ w.pipe.Credit := by
  induction hr with
  | refl => exact ⟨life_start cfg tun, credit_start tun⟩
  | @step w op _ ho ih =>
    have hack' : w.NoRefusedAck := fun i e he => hack i e ((log_linkStep op i).subset he)
    obtain ⟨hl, hc⟩ := ih hack'
    exact ⟨linkStep_life hl ho.1, linkStep_credit hl hc ho hack⟩

def Link.frames (w : Link) (i : Side) : List TcpFrame := (w.chan i).filterMap LinkPacket.frame

/-- Credit is conserved while both ends hold the connection, the window is never exceeded, and a
full window always has a DATA frame or credit on its way. -/
theorem credit_conserved {tun : Side → Option (ℕ → TTSession)}
    (hr : Machine.Reach (linkStep C cfg) (LiveStep C cfg) (Link.start tun) w) (hack : w.NoRefusedAck)
    (hu : ∀ i, (w.conn i).used = true) (i : Side) :
    (w.conn i).unacked = dataCount (w.frames i.other) + creditSum (w.frames i) + (w.conn i.other).ackDue ∧
      (w.conn i).unacked ≤ ttTunnelTcpWindow ∧
      ((w.conn i).unacked = ttTunnelTcpWindow → w.frames i.other ≠ [] ∨ w.frames i ≠ []) := by
  obtain ⟨-, hc⟩ := reach_credit hr hack
  have hb := hc.balance ⟨hu .client, Or.inl (hu .host)⟩ i
  have hbatch := hc.batch i.other
  refine ⟨hb, hc.window i, fun hfull => ?_⟩
  by_contra hn
  rw [not_or, not_not, not_not] at hn
  change (w.conn i).unacked = dataCount (w.frames i.other) + creditSum (w.frames i) + (w.conn i.other).ackDue at hb
  change (w.conn i.other).ackDue < ttTunnelAckBatch at hbatch
  rw [hn.1, hn.2, hfull] at hb
  simp only [ttTunnelTcpWindow, ttTunnelAckBatch, dataCount_nil, creditSum_nil] at hb hbatch
  omega

end

/-! ### A connection over the plain channel -/

namespace Instance

-- toxcore takes every packet, the server answers at once, the local application has one byte to
-- send at tick 1 and then nothing
def linkEnv : TunnelEnv where
  ident _ := aliceEnv
  draws _ := draws 1
  now _ := 0
  custom _ := .ok
  recv k := if k = 1 then .data [7] else .again
  sender _ := 0
  taken _ := 1367
  socket _ := some 5
  resolve _ _ _ := some 1
  connect _ := .done
  soError _ := some true
  accept _ := none
  friendByPk _ := none

def linkCfg : LinkCfg where
  env _ := linkEnv
  fn _ := 0
  portIdx := 0
  connid := 1
  tcp := [⟨80, 1⟩]
  tcpLocal := [⟨80, 1⟩]
  server := []
  full _ := false
  portIdx_lt := by decide
  portIdx_local := by decide
  connid_lt := by decide

def linkRun (ops : List LinkOp) : Link :=
  ops.foldl (linkStep crypto linkCfg) (Link.start fun _ => none)

def oneFrame : List LinkOp := [.accept 3, .deliver .host, .deliver .client, .poll .client]

theorem credit_conserved_oneFrame :
    ((linkRun oneFrame).conn .client).unacked = 1 ∧
      ((linkRun oneFrame).conn .client).unacked = dataCount ((linkRun oneFrame).frames .host) +
        creditSum ((linkRun oneFrame).frames .client) + ((linkRun oneFrame).conn .host).ackDue :=
  ⟨by decide +kernel, (credit_conserved (.run .refl (by decide +kernel)) (by decide +kernel)
    (by decide +kernel) .client).1⟩

def sealedCfg : LinkCfg :=
  { linkCfg with
    env := fun i => if i = .client then { linkEnv with recv := fun k => if k = 3 then .data [7] else .again }
      else { linkEnv with ident := fun _ => bobEnv } }

def sealedStart : Link :=
  Link.start fun i => some fun _ =>
    if i = .client then
      { alice with lossy := true, rekey := { alice.rekey with published := true, awaitingPeer := true } }
    else { bob with lossy := true }

def opened : List LinkOp := [.accept 3, .deliver .host, .deliver .client]

def sealedRun (ops : List LinkOp) : Link := ops.foldl (linkStep crypto sealedCfg) sealedStart

def lostDatagrams : ℕ → TTSession → TTSession
  | 0, s => s
  | n + 1, s => lostDatagrams n (ttSessionSendLossy crypto s [9] ttFrameMax (draws 5)).1

def keyTaken (r : TTRatchet) : TTRatchet :=
  { sendAdvance crypto r with sinceFold := (r.sinceFold + 1) % 2 ^ 16 }

-- each datagram takes one key of the sending chain and leaves the rest of the session as it is
theorem lostDatagrams_eq {s : TTSession} (ha : s.active = true) (hl : s.lossy = true)
    (hc : s.rekey.carrier = []) (hw : s.rekey.awaitingPeer = true) (n : ℕ) :
    lostDatagrams n s = { s with send := keyTaken^[n] s.send } := by
  induction n generalizing s with
  | zero => rfl
  | succ n ih =>
    have hauto : autoRekey s = s.rekey := if_neg (by simp [hw])
    have hhdr : emitHdr crypto s false (draws 5) = ⟨s.rekey, [], 0, none⟩ := by
      rw [emitHdr, if_neg (by simp [hl]), hauto]
    have hroom : 53 + (emitHdr crypto s false (draws 5)).hdr.length + ([9] : Bytes).length ≤ min 1372 ttFrameMax := by
      rw [hhdr]
      simp [ttFrameMax]
    obtain ⟨f, hf⟩ := emitEncode_isSome aeadCorrect (fun _ => [9]) ttFrameMax false (draws 5) hroom
    have hsent : (ttSessionSendLossy crypto s [9] ttFrameMax (draws 5)).1 =
        { s with send := keyTaken s.send } := by
      rw [ttSessionSendLossy, if_neg (by decide), if_neg (by simp [ha])]
      obtain ⟨-, hne, -⟩ | ⟨-, hn, -⟩ | ⟨-, g, hg, he⟩ :=
        emitFrame_cases crypto s (fun _ => [9]) ttFrameMax false (draws 5)
      · exact absurd hc hne
      · rw [hf] at hn
        cases hn
      · rw [he, emitDone, if_pos hl, emitDrawn, hhdr]
        simp [parkCarrier, finishFold, keyTaken, sendAdvance]
    rw [lostDatagrams, hsent]
    exact ih ha hl hc hw

def openedSession : TTSession := ((sealedRun opened).io .client).tun.elim .zero fun tun => tun 0

def burst : LinkOp := .session .client fun _ => lostDatagrams 512 openedSession

def lateByte : List LinkOp := opened ++ [burst, .poll .client, .deliver .host]

theorem lateByte_credit_lost :
    Machine.Meets (linkStep crypto sealedCfg) (fun w _ => ∀ i, (w.io i).Live (sealedCfg.fn i))
        sealedStart lateByte ∧
      (sealedRun lateByte).NoRefusedAck ∧ (∀ i, ((sealedRun lateByte).conn i).used = true) ∧
      (∀ i, (sealedRun lateByte).frames i = []) ∧
      ¬ ((sealedRun lateByte).conn .client).unacked = dataCount ((sealedRun lateByte).frames .host) +
        creditSum ((sealedRun lateByte).frames .client) + ((sealedRun lateByte).conn .host).ackDue := by
  have hs : openedSession.active = true ∧ openedSession.lossy = true ∧ openedSession.rekey.carrier = [] ∧
      openedSession.rekey.awaitingPeer = true := by decide +kernel
  have hrun : lateByte = opened ++ [.session .client fun _ =>
      { openedSession with send := keyTaken^[512] openedSession.send }, .poll .client, .deliver .host] := by
    rw [lateByte, burst, lostDatagrams_eq hs.1 hs.2.1 hs.2.2.1 hs.2.2.2]
  rw [hrun]
  decide +kernel

end Instance

end TkTox
