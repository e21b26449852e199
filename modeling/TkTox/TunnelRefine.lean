import TkTox.TunnelPipe

/-!
Every step of the link is a sequence of moves of its pipe.
-/

namespace TkTox

def Io.Puts (io io' : Io) (out gone : List TcpFrame) (rd wr : Bytes) : Prop :=
  ∃ l, io.Logs io' l ∧ l.filterMap TunnelEffect.out = out ∧
    l.filterMap TunnelEffect.lostCtl = gone ∧ l.flatMap TunnelEffect.readBytes = rd ∧
    l.flatMap TunnelEffect.wroteBytes = wr

namespace Io

variable {io io' io'' : Io} {out out' gone gone' : List TcpFrame} {rd rd' wr wr' : Bytes} {fn : ℕ}

theorem Puts.refl (io : Io) : io.Puts io [] [] [] [] :=
  ⟨[], (Io.Does.refl io 0).toLogs, rfl, rfl, rfl, rfl⟩

theorem Puts.tick (io : Io) : io.Puts io.tick [] [] [] [] :=
  ⟨[], (Io.Does.tick io 0).toLogs, rfl, rfl, rfl, rfl⟩

theorem Puts.trans (h : io.Puts io' out gone rd wr) (h' : io'.Puts io'' out' gone' rd' wr') :
    io.Puts io'' (out ++ out') (gone ++ gone') (rd ++ rd') (wr ++ wr') := by
  obtain ⟨l, hl, rfl, rfl, rfl, rfl⟩ := h
  obtain ⟨l', hl', rfl, rfl, rfl, rfl⟩ := h'
  exact ⟨l ++ l', hl.trans hl', by simp, by simp, by simp, by simp⟩

theorem Puts.emit (io : Io) (e : TunnelEffect) :
    io.Puts (io.emit e) e.out.toList e.lostCtl.toList e.readBytes e.wroteBytes := by
  refine ⟨[e], (Io.Does.emit io 0 e).toLogs, ?_, ?_, by simp, by simp⟩
  · cases h : e.out <;> simp [h]
  · cases h : e.lostCtl <;> simp [h]

theorem carriers_silent {l : List TunnelEffect} (h : ∀ e ∈ l, IsCarrier fn e) :
    l.filterMap TunnelEffect.out = [] ∧ l.filterMap TunnelEffect.lostCtl = [] ∧
      l.flatMap TunnelEffect.readBytes = [] ∧ l.flatMap TunnelEffect.wroteBytes = [] := by
  refine ⟨?_, ?_, ?_, ?_⟩
  · rw [List.filterMap_eq_nil_iff]
    intro e he
    obtain ⟨pkt, rfl⟩ := h e he
    rfl
  · rw [List.filterMap_eq_nil_iff]
    intro e he
    obtain ⟨pkt, rfl⟩ := h e he
    rfl
  · rw [List.flatMap_eq_nil_iff]
    intro e he
    obtain ⟨pkt, rfl⟩ := h e he
    rfl
  · rw [List.flatMap_eq_nil_iff]
    intro e he
    obtain ⟨pkt, rfl⟩ := h e he
    rfl

theorem Puts.carriers (fn : ℕ) {l : List TunnelEffect} (hl : io.Logs io' l) (h : ∀ e ∈ l, IsCarrier fn e) :
    io.Puts io' [] [] [] [] :=
  ⟨l, hl, (carriers_silent h).1, (carriers_silent h).2.1, (carriers_silent h).2.2.1,
    (carriers_silent h).2.2.2⟩

end Io

section

variable (C : Crypto) (env : TunnelEnv)

theorem tcpSend_puts (io : Io) (fn portIdx connid : ℕ) {op : TTTcpOp} (payload : Bytes)
    (hop : op ≠ .data) :
    (∃ out gone, Ctl ⟨portIdx, connid, op, payload⟩ out gone ∧
        io.Puts (tcpSend C env io fn ⟨portIdx, connid, op, payload⟩) out gone [] []) ∧
      (io.Live fn → (tcpSend C env io fn ⟨portIdx, connid, op, payload⟩).Live fn) := by
  obtain ⟨l, hl, ⟨-, pkt, -, hd⟩ | ⟨-, hd⟩⟩ :=
    (tcpSendEx_spec C env io fn ⟨portIdx, connid, op, payload⟩).grows
  · obtain ⟨h1, h2, h3, h4⟩ := Io.carriers_silent hl
    refine ⟨⟨[_], [], Or.inl ⟨rfl, rfl⟩, _, hd.toLogs, ?_, ?_, ?_, ?_⟩, hd.live⟩
    · rw [List.filterMap_append, h1]
      rfl
    · rw [List.filterMap_append, h2]
      rfl
    · rw [List.flatMap_append, h3]
      rfl
    · rw [List.flatMap_append, h4]
      rfl
  · obtain ⟨h1, h2, h3, h4⟩ := Io.carriers_silent hl
    refine ⟨⟨[], [_], Or.inr ⟨rfl, rfl⟩, _, hd.toLogs, ?_, ?_, ?_, ?_⟩, hd.live⟩
    · rw [List.filterMap_append, h1]
      rfl
    · rw [List.filterMap_append, h2]
      simp [TunnelEffect.lostCtl, hop]
    · rw [List.flatMap_append, h3]
      rfl
    · rw [List.flatMap_append, h4]
      rfl

theorem ttSend_puts (io : Io) (c : TTTunnelConn) (b : Bytes) :
    io.Puts (ttSend env io c b) [] [] [] (b.take (env.taken io.clock)) :=
  (Io.Puts.tick io).trans (Io.Puts.emit io.tick _)

theorem ttTunnelE2eeSend_puts (io : Io) (fn : ℕ) (id : UInt8) (frame : Bytes) :
    io.Puts (ttTunnelE2eeSend env io fn id frame none).1 [] [] [] [] := by
  refine Io.Puts.carriers fn (ttTunnelE2eeSend_spec env io fn id frame none).toLogs ?_
  intro e he
  split_ifs at he
  · exact ⟨_, List.mem_singleton.mp he⟩
  · cases he

theorem setTun_puts (io : Io) (fn : ℕ) (s : TTSession) :
    io.Puts (io.tick.setTun fn s) [] [] [] [] :=
  (Io.Puts.tick io).trans ⟨[], Io.Logs.setTun io.tick fn s, rfl, rfl, rfl, rfl⟩

theorem ttTunnelE2eeStart_puts (io : Io) (fn : ℕ) :
    io.Puts (ttTunnelE2eeStart C env io fn) [] [] [] [] := by
  unfold ttTunnelE2eeStart
  split
  · exact Io.Puts.refl io
  split_ifs
  · exact Io.Puts.refl io
  dsimp only
  split
  · exact (setTun_puts io fn _).trans (ttTunnelE2eeSend_puts env _ fn _ _)
  · exact setTun_puts io fn _

theorem e2eeReply_puts (io : Io) (fn : ℕ) (s : TTSession) :
    io.Puts (e2eeReply C env io fn s) [] [] [] [] := by
  unfold e2eeReply
  dsimp only
  split
  · exact (setTun_puts io fn _).trans (ttTunnelE2eeSend_puts env _ fn _ _)
  · exact setTun_puts io fn _

theorem ttTunnelE2eeRx_puts (io : Io) (fn : ℕ) (frame : Bytes) (lossy : Bool) :
    io.Puts (ttTunnelE2eeRx C env io fn frame lossy).1 [] [] [] [] := by
  unfold ttTunnelE2eeRx
  split
  · exact Io.Puts.refl io
  split_ifs
  · exact Io.Puts.refl io
  dsimp only
  split
  · split_ifs
    · exact (setTun_puts io fn _).trans (e2eeReply_puts C env _ fn _)
    · exact setTun_puts io fn _
  · exact setTun_puts io fn _
  · exact setTun_puts io fn _
  · exact setTun_puts io fn _
  · split_ifs
    · exact (setTun_puts io fn _).trans (ttTunnelE2eeStart_puts C env _ fn)
    · exact setTun_puts io fn _

theorem cbFriendLosslessPacket_puts (io : Io) (fn : ℕ) (pkt : Bytes) :
    io.Puts (cbFriendLosslessPacket C env io fn pkt).1 [] [] [] [] := by
  unfold cbFriendLosslessPacket
  split
  · exact Io.Puts.refl io
  split_ifs
  · split
    · exact Io.Puts.refl io
    · split_ifs
      · exact ttTunnelE2eeRx_puts C env io fn _ false
      · exact Io.Puts.refl io
  · exact Io.Puts.refl io
  · exact Io.Puts.refl io

end

def TunnelEffect.Whole : TunnelEffect → Prop
  | .wrote _ _ b n => b.length ≤ n
  | _ => True

theorem Link.act_pipe (w : Link) (i : Side) (g : Io → TTTunnelConn → Io × TTTunnelConn)
    {out gone : List TcpFrame} {rd wr : Bytes}
    (h : (w.io i).clear.Puts (g (w.io i).clear (w.conn i)).1 out gone rd wr) :
    (w.act i g).pipe = w.pipe.put i (g (w.io i).clear (w.conn i)).2 out gone rd wr := by
  obtain ⟨l, hl, rfl, rfl, rfl, rfl⟩ := h
  have hlog : (g (w.io i).clear (w.conn i)).1.log.map Prod.snd = l := by
    rw [hl.log_eq]
    simp [Io.clear]
  have hframes : (l.filterMap TunnelEffect.packet).filterMap LinkPacket.frame =
      l.filterMap TunnelEffect.out := by
    rw [List.filterMap_filterMap]
    congr 1
    funext e
    cases e <;> rfl
  simp only [Link.pipe, Link.act, Pipe.put, hlog]
  congr 1
  · funext j
    by_cases hj : j = i.other
    · subst hj
      simp [hframes]
    · simp [hj]
  · funext j
    by_cases hj : j = i
    · subst hj
      simp
    · simp [hj]
  · funext j
    by_cases hj : j = i
    · subst hj
      simp
    · simp [hj]
  · funext j
    by_cases hj : j = i
    · subst hj
      simp
    · simp [hj]

def Simulates (cfg : LinkCfg) (K : MoveCond) (i : Side) (p : Pipe) (io : Io)
    (r : Io × TTTunnelConn) : Prop :=
  ∃ out gone rd wr, io.Puts r.1 out gone rd wr ∧ Moves cfg K p (p.put i r.2 out gone rd wr)

section

variable {C : Crypto} {cfg : LinkCfg} {K : MoveCond} {i : Side} {p : Pipe} {io : Io}

theorem Simulates.trans {r r' : Io × TTTunnelConn} (h : Simulates cfg K i p io r)
    (h' : ∀ p', p'.conn i = r.2 → Moves cfg K p p' → Simulates cfg K i p' r.1 r') :
    Simulates cfg K i p io r' := by
  obtain ⟨out, gone, rd, wr, hp, hm⟩ := h
  obtain ⟨out', gone', rd', wr', hp', hm'⟩ := h' _ (by simp) hm
  rw [Pipe.put_put] at hm'
  exact ⟨_, _, _, _, hp.trans hp', hm.trans hm'⟩

theorem Simulates.same {io' : Io} {c : TTTunnelConn} (hc : p.conn i = c)
    (h : io.Puts io' [] [] [] []) : Simulates cfg K i p io (io', c) := by
  refine ⟨[], [], [], [], h, ?_⟩
  rw [← hc, Pipe.put_same]

theorem Simulates.link {w : Link} {g : Io → TTTunnelConn → Io × TTTunnelConn}
    (h : Simulates cfg K i w.pipe (w.io i).clear (g (w.io i).clear (w.conn i))) :
    Moves cfg K w.pipe (w.act i g).pipe := by
  obtain ⟨out, gone, rd, wr, hp, hm⟩ := h
  rw [Link.act_pipe w i g hp]
  exact hm

theorem DrainRun.moves {c c' : TTTunnelConn} {l : List TunnelEffect} (h : DrainRun (K.live i) c l c')
    (hc : p.conn i = c) (hs : Serving c) :
    Moves cfg K p (p.put i c' (l.filterMap TunnelEffect.out) (l.filterMap TunnelEffect.lostCtl)
      (l.flatMap TunnelEffect.readBytes) (l.flatMap TunnelEffect.wroteBytes)) := by
  induction h with
  | refl =>
    subst hc
    exact (Pipe.put_same p i).symm ▸ Relation.ReflTransGen.refl
  | @step c₁ c₂ l e hr ha ih =>
    have hslot := hr.sameSlot
    have hs₁ : Serving c₁ := by
      rw [Serving, hslot.used, hslot.sock]
      exact hs
    refine ih.trans ?_
    simp only [List.filterMap_append, List.flatMap_append]
    rw [← Pipe.put_put p i c₁ c₂]
    generalize hq : p.put i c₁ (l.filterMap TunnelEffect.out) (l.filterMap TunnelEffect.lostCtl)
      (l.flatMap TunnelEffect.readBytes) (l.flatMap TunnelEffect.wroteBytes) = q
    have hqc : q.conn i = c₁ := by
      rw [← hq]
      exact Pipe.put_conn_self ..
    subst hqc
    cases ha with
    | carrier pkt => exact (Pipe.put_same q i).symm ▸ Relation.ReflTransGen.refl
    | sent pkt k ho hu hk => exact .single (.sent i k hs₁ ho hu hk)
    | swallowed k hn ho hu hk => exact .single (.swallowed i k hn hs₁ ho hu hk)
    | kept b => exact (Pipe.put_same q i).symm ▸ Relation.ReflTransGen.refl
    | read b =>
      have hb : [TunnelEffect.read (q.conn i).fn ((q.conn i).sock.getD 0) b].flatMap
          TunnelEffect.readBytes = b := by
        simp [TunnelEffect.readBytes]
      rw [hb]
      exact .single (.read i b hs₁)

variable {env : TunnelEnv}

theorem connService_simulates {c : TTTunnelConn} (hc : p.conn i = c) (hs : Serving c)
    (hid : c.portIdx = cfg.portIdx ∧ c.connid = cfg.connid)
    (hlive : K.live i → io.Live c.fn ∨ ¬SendsData env io c) :
    Simulates cfg K i p io (connService C env io c) := by
  obtain ⟨l, b, hd, hr, hb⟩ := connDrainOut_spec C env hlive
  have hm : Moves cfg K p _ := hr.moves hc hs
  have hslot := hr.sameSlot
  unfold connService
  dsimp only
  split_ifs with hres
  · rw [hb hres, if_pos rfl, List.append_nil] at hd
    exact ⟨_, _, _, _, ⟨l, hd.toLogs, rfl, rfl, rfl, rfl⟩, hm⟩
  · have hfin : c.frame .fin [] = ⟨cfg.portIdx, cfg.connid, .fin, []⟩ := by
      rw [TTTunnelConn.frame, hid.1, hid.2]
    obtain ⟨⟨out, gone, hctl, hputs⟩, -⟩ := tcpSend_puts C env (connDrainOut C env io c).1 c.fn
      cfg.portIdx cfg.connid [] (by decide : TTTcpOp.fin ≠ .data)
    rw [hfin]
    generalize connDrainOut C env io c = r at hd hm hslot hputs hres ⊢
    have hclose : Move cfg K _ _ := Move.close (p := p.put i r.2.1 (l.filterMap TunnelEffect.out)
      (l.filterMap TunnelEffect.lostCtl) (l.flatMap TunnelEffect.readBytes)
      (l.flatMap TunnelEffect.wroteBytes)) i b (by
        rw [Pipe.put_conn_self, Serving, hslot.used, hslot.sock]
        exact hs) hctl
    rw [Pipe.put_conn_self, Pipe.put_put, List.append_nil] at hclose
    refine ⟨_, _, _, _, ?_, hm.tail hclose⟩
    have hall : io.Puts r.1 (l.filterMap TunnelEffect.out) (l.filterMap TunnelEffect.lostCtl)
        (l.flatMap TunnelEffect.readBytes ++ b) (l.flatMap TunnelEffect.wroteBytes) := by
      refine ⟨_, hd.toLogs, ?_, ?_, ?_, ?_⟩ <;> split_ifs with hb'
      all_goals simp [TunnelEffect.out, TunnelEffect.lostCtl, TunnelEffect.readBytes,
        TunnelEffect.wroteBytes, hb']
    simpa using hall.trans hputs

theorem pollConnect_cases (env : TunnelEnv) (io : Io) (c : TTTunnelConn) :
    (∃ io', io.Puts io' [] [] [] [] ∧ (io.Live c.fn → io'.Live c.fn) ∧
      pollConnect C env io c = (io', c)) ∨
    (c.connecting = true ∧ c.sock.isSome = true ∧
      pollConnect C env io c =
        (tcpSend C env io.tick c.fn (c.frame .openFail []), connFree c)) ∨
    (c.connecting = true ∧ c.sock.isSome = true ∧ c.pend = [] ∧
      pollConnect C env io c =
        (tcpSend C env io.tick c.fn (c.frame .openAck []), { c with connecting := false, pend := [] })) ∨
    (c.connecting = true ∧ c.sock.isSome = true ∧
      pollConnect C env io c =
        (ttSend env (tcpSend C env io.tick c.fn (c.frame .openAck [])) c c.pend,
          { c with connecting := false, pend := [] })) := by
  unfold pollConnect
  by_cases hc : c.connecting = false
  · rw [if_pos hc]
    exact Or.inl ⟨io, Io.Puts.refl io, id, rfl⟩
  rw [if_neg hc]
  have hc' : c.connecting = true := by simpa using hc
  cases hs : c.sock with
  | none => exact Or.inl ⟨io.tick, Io.Puts.tick io, id, rfl⟩
  | some s =>
    rw [Option.bind_some]
    cases env.soError io.clock with
    | none => exact Or.inl ⟨io.tick, Io.Puts.tick io, id, rfl⟩
    | some done =>
      cases done with
      | false => exact Or.inr (Or.inl ⟨hc', rfl, rfl⟩)
      | true =>
        by_cases hp : c.pend = []
        · refine Or.inr (Or.inr (Or.inl ⟨hc', rfl, hp, ?_⟩))
          dsimp only
          rw [if_pos hp, hp]
        · refine Or.inr (Or.inr (Or.inr ⟨hc', rfl, ?_⟩))
          dsimp only
          rw [if_neg hp]

theorem wrote_mem_ttSend (env : TunnelEnv) (io : Io) (c : TTTunnelConn) (b : Bytes) :
    (io.owner, TunnelEffect.wrote c.fn (c.sock.getD 0) b (env.taken io.clock)) ∈
      (ttSend env io c b).log := by
  simp [ttSend]

theorem pollConnect_simulates (hu : (p.conn .host).used = true)
    (hid : (p.conn .host).portIdx = cfg.portIdx ∧ (p.conn .host).connid = cfg.connid)
    (hwhole : K.whole → ∀ x ∈ (pollConnect C env io (p.conn .host)).1.log, x.2.Whole) :
    Simulates cfg K .host p io (pollConnect C env io (p.conn .host)) := by
  have hack : (p.conn .host).frame .openAck [] = ⟨cfg.portIdx, cfg.connid, .openAck, []⟩ := by
    rw [TTTunnelConn.frame, hid.1, hid.2]
  have hfail : (p.conn .host).frame .openFail [] = ⟨cfg.portIdx, cfg.connid, .openFail, []⟩ := by
    rw [TTTunnelConn.frame, hid.1, hid.2]
  obtain ⟨io', hio, -, h⟩ | ⟨hc, hs, h⟩ | ⟨hc, hs, hp, h⟩ | ⟨hc, hs, h⟩ :=
    pollConnect_cases env io (p.conn .host)
  · rw [h]
    exact .same rfl hio
  · rw [h, hfail]
    obtain ⟨⟨out, gone, hctl, hputs⟩, -⟩ := tcpSend_puts C env io.tick (p.conn .host).fn
      cfg.portIdx cfg.connid [] (by decide : TTTcpOp.openFail ≠ .data)
    exact ⟨out, gone, [], [], (Io.Puts.tick io).trans hputs, .single (.connectFailed ⟨hu, hs⟩ hc hctl)⟩
  · rw [h, hack]
    obtain ⟨⟨out, gone, hctl, hputs⟩, -⟩ := tcpSend_puts C env io.tick (p.conn .host).fn
      cfg.portIdx cfg.connid [] (by decide : TTTcpOp.openAck ≠ .data)
    exact ⟨out, gone, [], [], (Io.Puts.tick io).trans hputs,
      .single (.connected 0 ⟨hu, hs⟩ hc (fun _ => by simp [hp]) hctl)⟩
  · rw [h, hack] at hwhole ⊢
    obtain ⟨⟨out, gone, hctl, hputs⟩, -⟩ := tcpSend_puts C env io.tick (p.conn .host).fn
      cfg.portIdx cfg.connid [] (by decide : TTTcpOp.openAck ≠ .data)
    refine ⟨out, gone, [], _, ?_, .single (.connected _ ⟨hu, hs⟩ hc
      (fun hK => hwhole hK _ (wrote_mem_ttSend ..)) hctl)⟩
    simpa using ((Io.Puts.tick io).trans hputs).trans (ttSend_puts env _ _ _)

theorem pollServe_simulates {c : TTTunnelConn} (hc : p.conn i = c)
    (hid : c.used = true → c.portIdx = cfg.portIdx ∧ c.connid = cfg.connid)
    (hlive : c.used = true → K.live i → io.Live c.fn ∨ ¬SendsData env io c) :
    Simulates cfg K i p io (pollServe C env io c) := by
  unfold pollServe
  split_ifs with hs
  · exact connService_simulates hc hs (hid hs.1) (hlive hs.1)
  · exact .same hc (Io.Puts.refl io)

theorem pollRetryConn_simulates {c : TTTunnelConn} (hc : p.conn i = c)
    (hid : c.used = true → c.portIdx = cfg.portIdx ∧ c.connid = cfg.connid)
    (hlive : c.used = true → K.live i → io.Live c.fn ∨ ¬SendsData env io c) :
    Simulates cfg K i p io (pollRetryConn C env io c) := by
  unfold pollRetryConn
  split_ifs with hs
  · exact connService_simulates hc ⟨hs.1, hs.2.1⟩ (hid hs.1) (hlive hs.1)
  · exact .same hc (Io.Puts.refl io)

theorem Io.Puts.mem {io io' : Io} {out gone : List TcpFrame} {rd wr : Bytes}
    (h : io.Puts io' out gone rd wr) {x : ℕ × TunnelEffect} (hx : x ∈ io.log) : x ∈ io'.log := by
  obtain ⟨l, hl, -⟩ := h
  rw [hl.log_eq]
  exact List.mem_append_left _ hx

theorem pollHostConn_simulates
    (hid : (p.conn .host).used = true →
      (p.conn .host).portIdx = cfg.portIdx ∧ (p.conn .host).connid = cfg.connid)
    (hlive : (p.conn .host).used = true → K.live .host →
      (pollConnect C env io (p.conn .host)).1.Live (p.conn .host).fn ∨
      ¬SendsData env (pollConnect C env io (p.conn .host)).1 (pollConnect C env io (p.conn .host)).2)
    (hwhole : K.whole → ∀ x ∈ (pollHostConn C env io (p.conn .host)).1.log, x.2.Whole) :
    Simulates cfg K .host p io (pollHostConn C env io (p.conn .host)) := by
  unfold pollHostConn at hwhole ⊢
  split_ifs at hwhole ⊢ with hu
  · exact .same rfl (Io.Puts.refl io)
  have hu' : (p.conn .host).used = true := by simpa using hu
  -- the connect step keeps the identity of the slot
  have hslot : (pollConnect C env io (p.conn .host)).2.fn = (p.conn .host).fn ∧
      (pollConnect C env io (p.conn .host)).2.portIdx = cfg.portIdx ∧
      (pollConnect C env io (p.conn .host)).2.connid = cfg.connid := by
    obtain ⟨io', -, -, h⟩ | ⟨-, -, h⟩ | ⟨-, -, -, h⟩ | ⟨-, -, h⟩ := pollConnect_cases env io (p.conn .host)
    all_goals
      rw [h]
      exact ⟨rfl, hid hu'⟩
  have hserve : ∀ p', p'.conn .host = (pollConnect C env io (p.conn .host)).2 →
      Simulates cfg K .host p' (pollConnect C env io (p.conn .host)).1
        (pollServe C env (pollConnect C env io (p.conn .host)).1
          (pollConnect C env io (p.conn .host)).2) := by
    intro p' hp'
    refine pollServe_simulates hp' (fun _ => hslot.2) ?_
    rw [hslot.1]
    exact fun _ => hlive hu'
  refine (pollConnect_simulates hu' (hid hu') ?_).trans fun p' hp' _ => hserve p' hp'
  intro hK x hx
  obtain ⟨out, gone, rd, wr, hputs, -⟩ := hserve
    (p.put .host (pollConnect C env io (p.conn .host)).2 [] [] [] []) (by simp)
  exact hwhole hK x (hputs.mem hx)

/-! ### Received frames -/

theorem connReturnCredit_credited (env : TunnelEnv) (io : Io) (c : TTTunnelConn) :
    ∃ out gone, io.Puts (connReturnCredit C env io c).1 out gone [] [] ∧
      Credited c (connReturnCredit C env io c).2 out gone := by
  unfold connReturnCredit
  dsimp only
  split_ifs with hb
  · obtain ⟨⟨out, gone, hctl, hputs⟩, -⟩ := tcpSend_puts C env io c.fn c.portIdx c.connid
      (u16be (c.ackDue + 1)) (by decide : TTTcpOp.ack ≠ .data)
    refine ⟨out, gone, hputs, .batch ?_ hctl⟩
    simp only [ttTunnelAckBatch, ttTunnelTcpWindow] at hb ⊢
    omega
  · refine ⟨[], [], Io.Puts.refl io, .count ?_⟩
    simp only [ttTunnelAckBatch, ttTunnelTcpWindow] at hb ⊢
    omega

def Receives (cfg : LinkCfg) (K : MoveCond) (i : Side) (c : TTTunnelConn) (f : TcpFrame) (io : Io)
    (r : Io × TTTunnelConn) : Prop :=
  ∃ out gone wr, io.Puts r.1 out gone [] wr ∧ Rx cfg K i c f r.2 out gone wr

variable {c : TTTunnelConn} {f : TcpFrame} {io' : Io}

theorem Receives.silent {c' : TTTunnelConn} (h : Rx cfg K i c f c' [] [] []) :
    Receives cfg K i c f io (io, c') := ⟨[], [], [], Io.Puts.refl io, h⟩

theorem Receives.stored {c₁ : TTTunnelConn} {io₁ : Io} {wr : Bytes} (hu : c.used = true)
    (hf : f.op = .data) (hio : io.Puts io₁ [] [] [] wr) (hs : Stored K i c f.payload c₁ wr) :
    Receives cfg K i c f io (connReturnCredit C env io₁ c₁) := by
  obtain ⟨out, gone, hputs, hcr⟩ := connReturnCredit_credited (C := C) env io₁ c₁
  refine ⟨out, gone, wr, ?_, .data hu hf hs hcr⟩
  simpa using hio.trans hputs

theorem rxHostConn_receives (hu : c.used = true)
    (hwhole : K.whole → ∀ x ∈ (rxHostConn C env io c f.op f.payload).1.log, x.2.Whole)
    (hroom : K.room → c.connecting = true → f.op = .data →
      c.pend.length + f.payload.length ≤ ttTunnelPendMax)
    (hset : K.settled → f.op = .fin → c.unacked = 0) :
    Receives cfg K .host c f io (rxHostConn C env io c f.op f.payload) := by
  cases hop : f.op with
  | «open» => exact .silent (.ignored hu (Or.inl hop))
  | openAck => exact .silent (.ignored hu (Or.inr (Or.inl hop)))
  | openFail => exact .silent (.ignored hu (Or.inr (Or.inr ⟨hop, rfl⟩)))
  | ack => exact .silent (.ack hu hop)
  | fin => exact .silent (.fin hu hop fun hK => hset hK hop)
  | data =>
    rw [hop] at hwhole
    simp only [rxHostConn] at hwhole ⊢
    split_ifs at hwhole ⊢ with hc hs
    · exact .stored hu hop (Io.Puts.refl io) (.pend rfl hc fun hK => hroom hK hc hop)
    · refine .stored hu hop (ttSend_puts env io c f.payload) (.write _ (fun _ => by simpa using hc) hs ?_)
      intro hK
      obtain ⟨out, gone, hputs, -⟩ := connReturnCredit_credited (C := C) env (ttSend env io c f.payload) c
      exact hwhole hK _ (hputs.mem (wrote_mem_ttSend env io c f.payload))
    · exact .stored hu hop (Io.Puts.refl io) (.nowhere rfl (by simpa using hc) (by simpa using hs))

theorem rxClientConn_receives (hu : c.used = true)
    (hwhole : K.whole → ∀ x ∈ (rxClientConn C env io c f.op f.payload).1.log, x.2.Whole)
    (hset : K.settled → f.op = .fin → c.unacked = 0) :
    Receives cfg K .client c f io (rxClientConn C env io c f.op f.payload) := by
  cases hop : f.op with
  | «open» => exact .silent (.ignored hu (Or.inl hop))
  | openAck => exact .silent (.ignored hu (Or.inr (Or.inl hop)))
  | openFail => exact .silent (.openFail rfl hu hop)
  | ack => exact .silent (.ack hu hop)
  | fin => exact .silent (.fin hu hop fun hK => hset hK hop)
  | data =>
    rw [hop] at hwhole
    simp only [rxClientConn] at hwhole ⊢
    split_ifs at hwhole ⊢ with hs
    · refine .stored hu hop (ttSend_puts env io c f.payload) (.write _ (fun h => by cases h) hs ?_)
      intro hK
      obtain ⟨out, gone, hputs, -⟩ := connReturnCredit_credited (C := C) env (ttSend env io c f.payload) c
      exact hwhole hK _ (hputs.mem (wrote_mem_ttSend env io c f.payload))
    · exact .silent (.closed rfl hu hop (by simpa using hs))

theorem Receives.refuse {io' : Io} {c' : TTTunnelConn} {fn : ℕ} (hu : c.used = false)
    (hf : f.op = .open) (hc : c' = c ∨ ∃ c₀, c' = connFree c₀) (hio : io.Puts io' [] [] [] []) :
    Receives cfg K .host c f io
      (tcpSend C env io' fn ⟨cfg.portIdx, cfg.connid, .openFail, []⟩, c') := by
  obtain ⟨⟨out, gone, hctl, hputs⟩, -⟩ := tcpSend_puts C env io' fn cfg.portIdx cfg.connid []
    (by decide : TTTcpOp.openFail ≠ .data)
  exact ⟨out, gone, [], by simpa using hio.trans hputs, .refusedOpen rfl hu hf hc hctl⟩

theorem hostOpenSlot_receives (hu : c.used = false) (hf : f.op = .open) (hio : io.Puts io' [] [] [] []) :
    Receives cfg K .host c f io (hostOpenSlot C env cfg.tcp cfg.server io' c (cfg.fn .host)
      cfg.portIdx cfg.connid) := by
  have ht := hio.trans (Io.Puts.tick io')
  unfold hostOpenSlot
  dsimp only
  split
  · exact .refuse hu hf (Or.inr ⟨_, rfl⟩) ht
  rename_i s hs
  split_ifs with hp
  · exact .refuse hu hf (Or.inr ⟨_, rfl⟩) ht
  have ht' := ht.trans (Io.Puts.tick io'.tick)
  split
  · exact .refuse hu hf (Or.inr ⟨_, rfl⟩) ht'
  rename_i addr ha
  have hcon : io.Puts (io'.tick.tick.emit (.connect (cfg.fn .host) s addr)).tick [] [] [] [] :=
    (ht'.trans (Io.Puts.emit io'.tick.tick (.connect (cfg.fn .host) s addr))).trans (Io.Puts.tick _)
  split
  · obtain ⟨⟨out, gone, hctl, hputs⟩, -⟩ := tcpSend_puts C env
      (io'.tick.tick.emit (.connect (cfg.fn .host) s addr)).tick (cfg.fn .host) cfg.portIdx cfg.connid []
      (by decide : TTTcpOp.openAck ≠ .data)
    refine ⟨out, gone, [], by simpa using hcon.trans hputs, ?_⟩
    exact .opened s false rfl hu hf hctl
  · exact ⟨[], [], [], hcon, .opened s true rfl hu hf ⟨rfl, rfl⟩⟩
  · exact .refuse hu hf (Or.inr ⟨_, rfl⟩) hcon

def TcpFrame.head (f : TcpFrame) : TcpHead := ⟨f.portIdx, f.connid, f.op.toByte, f.payload⟩

theorem matches_iff (hid : c.used = true → c.fn = cfg.fn i ∧ c.connid = cfg.connid) :
    c.Matches (cfg.fn i) cfg.connid ↔ c.used = true := by
  constructor
  · exact fun h => h.1
  · exact fun h => ⟨h, hid h⟩

theorem rxSide_receives (hf : f.portIdx = cfg.portIdx ∧ f.connid = cfg.connid)
    (hid : c.used = true → c.fn = cfg.fn i ∧ c.connid = cfg.connid)
    (hwhole : K.whole → ∀ x ∈ (rxSide C cfg i f.head io c).1.log, x.2.Whole)
    (hroom : i = .host → K.room → c.connecting = true → f.op = .data →
      c.pend.length + f.payload.length ≤ ttTunnelPendMax)
    (hset : K.settled → c.used = true → f.op = .fin → c.unacked = 0) :
    Receives cfg K i c f io (rxSide C cfg i f.head io c) := by
  cases i with
  | client =>
    simp only [rxSide, rxClient, TcpFrame.head, TTTcpOp.ofByte_toByte, hf.1, hf.2,
      matches_iff hid, ge_iff_le, not_le.mpr cfg.portIdx_local, if_false] at hwhole ⊢
    by_cases hu : c.used = true
    · rw [if_pos hu] at hwhole ⊢
      exact rxClientConn_receives hu hwhole fun hK => hset hK hu
    · rw [if_neg hu]
      exact .silent (.unused (by simpa using hu) fun h => by cases h)
  | host =>
    simp only [rxSide, rxHost, TcpFrame.head, TTTcpOp.ofByte_toByte, hf.1, hf.2,
      matches_iff hid, ne_eq, not_true_eq_false, if_false] at hwhole ⊢
    by_cases hu : c.used = true
    · rw [if_pos hu] at hwhole ⊢
      exact rxHostConn_receives hu hwhole (hroom rfl) fun hK => hset hK hu
    rw [if_neg hu]
    have hu' : c.used = false := by simpa using hu
    by_cases ho : f.op = .open
    · rw [if_pos ⟨ho, hu'⟩]
      split_ifs
      · exact .refuse hu' ho (Or.inl rfl) (Io.Puts.tick io)
      · exact hostOpenSlot_receives hu' ho (Io.Puts.tick io)
    · rw [if_neg fun h => ho h.1]
      exact .silent (.unused hu' fun _ => ho)

end

def served (C : Crypto) (cfg : LinkCfg) (w : Link) : LinkOp → Side → Io × TTTunnelConn
  | .poll .host, .host => pollConnect C (cfg.env .host) (w.io .host).clear (w.conn .host)
  | _, i => ((w.io i).clear, w.conn i)

def stepCond (C : Crypto) (cfg : LinkCfg) (w : Link) (op : LinkOp) : MoveCond where
  live i := (served C cfg w op i).1.Live (cfg.fn i) ∨
    ¬SendsData (cfg.env i) (served C cfg w op i).1 (served C cfg w op i).2
  whole := ∀ i, ∀ e ∈ (linkStep C cfg w op).log i, e.Whole
  room := op = .deliver .host → ∀ p ∈ (w.chan .host).head?, ∀ f ∈ p.frame,
    (w.conn .host).connecting = true → f.op = .data →
    (w.conn .host).pend.length + f.payload.length ≤ ttTunnelPendMax
  settled := ∀ i, op = .deliver i → ∀ p ∈ (w.chan i).head?, ∀ f ∈ p.frame,
    (w.conn i).used = true → f.op = .fin → (w.conn i).unacked = 0

section

variable {C : Crypto} {cfg : LinkCfg} {w : Link}

theorem act_log (i : Side) (g : Io → TTTunnelConn → Io × TTTunnelConn) :
    (w.act i g).log i = w.log i ++ (g (w.io i).clear (w.conn i)).1.log.map Prod.snd := by
  simp [Link.act]

theorem whole_of_log (l : List TunnelEffect) {log : List (ℕ × TunnelEffect)} {all : List TunnelEffect}
    (hl : all = l ++ log.map Prod.snd) (h : ∀ e ∈ all, e.Whole) : ∀ x ∈ log, x.2.Whole := by
  intro x hx
  refine h _ ?_
  rw [hl]
  exact List.mem_append_right _ (List.mem_map_of_mem hx)

theorem accept_moves (fd : ℕ) : Moves cfg (stepCond C cfg w (.accept fd)) w.pipe
    (linkStep C cfg w (.accept fd)).pipe := by
  generalize stepCond C cfg w (.accept fd) = K
  simp only [linkStep]
  split_ifs with ha
  · exact .refl
  obtain ⟨⟨out, gone, hctl, hputs⟩, -⟩ := tcpSend_puts C (cfg.env .client) (w.io .client).clear
    (cfg.fn .client) cfg.portIdx cfg.connid [] (by decide : TTTcpOp.open ≠ .data)
  have hp := Link.act_pipe w .client (acceptConn C cfg fd) hputs
  have hm : Move cfg K w.pipe _ := .accept fd (Bool.eq_false_iff.mpr ha) hctl
  have heq : ({ w.act .client (acceptConn C cfg fd) with accepted := true } : Link).pipe =
      { (w.act .client (acceptConn C cfg fd)).pipe with accepted := true } := rfl
  rw [heq, hp]
  exact .single hm

theorem live_slot (hwf : w.pipe.Wf cfg) {op : LinkOp} {i : Side} (hs : served C cfg w op i = ((w.io i).clear, w.conn i))
    (hu : (w.conn i).used = true) (hl : (stepCond C cfg w op).live i) :
    (w.io i).clear.Live (w.conn i).fn ∨ ¬SendsData (cfg.env i) (w.io i).clear (w.conn i) := by
  simp only [stepCond, hs] at hl
  rw [show (w.conn i).fn = cfg.fn i from (hwf.conn i hu).1]
  exact hl

theorem poll_moves (hwf : w.pipe.Wf cfg) (i : Side) : Moves cfg (stepCond C cfg w (.poll i)) w.pipe
    (linkStep C cfg w (.poll i)).pipe := by
  cases i with
  | client =>
    exact Simulates.link (pollServe_simulates rfl (fun hu => (hwf.conn .client hu).2)
      fun hu hl => live_slot hwf rfl hu hl)
  | host =>
    refine Simulates.link (i := .host) (pollHostConn_simulates (p := w.pipe) (fun hu => (hwf.conn .host hu).2)
      (fun hu hl => ?_) fun hK => ?_)
    · change _ ∨ _ at hl
      rw [← (hwf.conn .host hu).1] at hl
      exact hl
    · exact whole_of_log _ (act_log .host _) (hK .host)

theorem retry_moves (hwf : w.pipe.Wf cfg) (i : Side) : Moves cfg (stepCond C cfg w (.retry i)) w.pipe
    (linkStep C cfg w (.retry i)).pipe := by
  simp only [linkStep]
  split_ifs with hn
  · exact .refl
  · exact Simulates.link (pollRetryConn_simulates rfl (fun hu => (hwf.conn i hu).2)
      fun hu hl => live_slot hwf rfl hu hl)

theorem popped_pipe (i : Side) (rest : List LinkPacket) :
    (w.popped i rest).pipe = w.pipe.pop i (rest.filterMap LinkPacket.frame) := by
  simp only [Link.pipe, Link.popped, Pipe.pop]
  congr 1
  funext j
  by_cases hj : j = i
  · subst hj
    simp
  · simp [hj]

theorem deliver_carrier {i : Side} {q : LinkPacket} {rest : List LinkPacket} (hch : w.chan i = q :: rest)
    (hq : q.frame = none)
    (hopen : (cbFriendLosslessPacket C (cfg.env i) (w.io i).clear (cfg.fn i) q.pkt).2 = none) :
    ((w.popped i rest).act i (deliverConn C cfg i q.pkt)).pipe = w.pipe := by
  have hd : deliverConn C cfg i q.pkt (w.io i).clear (w.conn i) =
      ((cbFriendLosslessPacket C (cfg.env i) (w.io i).clear (cfg.fn i) q.pkt).1, w.conn i) := by
    simp only [deliverConn, hopen, Option.bind_none]
  have hputs : (w.io i).clear.Puts (deliverConn C cfg i q.pkt (w.io i).clear (w.conn i)).1
      [] [] [] [] := by
    rw [hd]
    exact cbFriendLosslessPacket_puts C (cfg.env i) (w.io i).clear (cfg.fn i) q.pkt
  have hp := Link.act_pipe (w.popped i rest) i (deliverConn C cfg i q.pkt) hputs
  change _ = Pipe.put _ i (deliverConn C cfg i q.pkt (w.io i).clear (w.conn i)).2 _ _ _ _ at hp
  have hsame : w.pipe.pop i (rest.filterMap LinkPacket.frame) = w.pipe := by
    simp only [Link.pipe, Pipe.pop]
    congr 1
    funext j
    by_cases hj : j = i
    · subst hj
      simp [hch, hq]
    · simp [hj]
  rw [hp, popped_pipe, hsame, hd]
  exact Pipe.put_same w.pipe i

theorem deliver_frame (hwf : w.pipe.Wf cfg) {i : Side} {q : LinkPacket} {rest : List LinkPacket}
    {f : TcpFrame} {K : MoveCond} (hch : w.chan i = q :: rest) (hq : q.frame = some f)
    (hopen : (cbFriendLosslessPacket C (cfg.env i) (w.io i).clear (cfg.fn i) q.pkt).2 = some f.pack)
    (hwhole : K.whole →
      ∀ x ∈ (deliverConn C cfg i q.pkt (w.io i).clear (w.conn i)).1.log, x.2.Whole)
    (hroom : i = .host → K.room → (w.conn i).connecting = true → f.op = .data →
      (w.conn i).pend.length + f.payload.length ≤ ttTunnelPendMax)
    (hset : K.settled → (w.conn i).used = true → f.op = .fin → (w.conn i).unacked = 0) :
    Move cfg K w.pipe ((w.popped i rest).act i (deliverConn C cfg i q.pkt)).pipe := by
  have hfl : w.pipe.flight i = f :: rest.filterMap LinkPacket.frame := by
    simp [Link.pipe, hch, hq]
  have hf := hwf.flight i f (by simp [hfl])
  have hparse : parseTcp f.pack = some f.head :=
    parseTcp_pack f (hf.1 ▸ cfg.portIdx_lt) (hf.2 ▸ cfg.connid_lt)
  have hd : deliverConn C cfg i q.pkt (w.io i).clear (w.conn i) = rxSide C cfg i f.head
      (cbFriendLosslessPacket C (cfg.env i) (w.io i).clear (cfg.fn i) q.pkt).1 (w.conn i) := by
    simp only [deliverConn, hopen, Option.bind_some, hparse]
  have hid : (w.conn i).used = true → (w.conn i).fn = cfg.fn i ∧ (w.conn i).connid = cfg.connid :=
    fun hu => ⟨(hwf.conn i hu).1, (hwf.conn i hu).2.2⟩
  rw [hd] at hwhole
  obtain ⟨out, gone, wr, hputs, hr⟩ := rxSide_receives hf hid hwhole hroom hset
  rw [← hd] at hputs hr
  have hall := (cbFriendLosslessPacket_puts C (cfg.env i) (w.io i).clear (cfg.fn i) q.pkt).trans hputs
  rw [List.nil_append, List.nil_append, List.nil_append, List.nil_append] at hall
  have hp := Link.act_pipe (w.popped i rest) i (deliverConn C cfg i q.pkt) hall
  rw [hp, popped_pipe]
  exact .rx i f _ hfl hr

theorem deliver_moves (hwf : w.pipe.Wf cfg) (i : Side) (ho : w.Opens C cfg i) :
    Moves cfg (stepCond C cfg w (.deliver i)) w.pipe (linkStep C cfg w (.deliver i)).pipe := by
  cases hch : w.chan i with
  | nil =>
    simp only [linkStep, hch]
    exact .refl
  | cons q rest =>
    have hopen := ho q (by simp [hch])
    have hstep : linkStep C cfg w (.deliver i) =
        (w.popped i rest).act i (deliverConn C cfg i q.pkt) := by
      simp only [linkStep, hch]
    cases hq : q.frame with
    | none =>
      rw [hq] at hopen
      rw [hstep, deliver_carrier hch hq hopen]
    | some f =>
      rw [hq] at hopen
      rw [hstep]
      refine .single (deliver_frame hwf hch hq hopen ?_ ?_ ?_)
      · intro hK
        refine whole_of_log (w.log i) ?_ (hK i)
        rw [hstep]
        exact act_log i _
      · rintro rfl hK hc hop
        exact hK rfl q (by simp [hch]) f hq hc hop
      · intro hK hu hop
        exact hK i rfl q (by simp [hch]) f hq hu hop

theorem linkStep_moves (hwf : w.pipe.Wf cfg) (op : LinkOp)
    (ho : ∀ i, op = .deliver i → w.Opens C cfg i) :
    Moves cfg (stepCond C cfg w op) w.pipe (linkStep C cfg w op).pipe := by
  cases op with
  | accept fd => exact accept_moves fd
  | poll i => exact poll_moves hwf i
  | retry i => exact retry_moves hwf i
  | deliver i => exact deliver_moves hwf i (ho i rfl)
  | session i tun => exact .refl

end

end TkTox
