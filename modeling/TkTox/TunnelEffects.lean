import TkTox.TunnelIds

/-!
What the calls of a tunnel do to the outside, call by call: everything a call does lies in a set of
effects that has the control frames and what the call's own connections and sockets are for.
-/

namespace TkTox

def Io.Emits (P : TunnelEffect → Prop) (io io' : Io) : Prop := ∃ l, io.Logs io' l ∧ ∀ e ∈ l, P e

structure Controls (P : TunnelEffect → Prop) : Prop where
  bare : ∀ fn pkt, P (.lossless fn pkt none)
  control : ∀ fn pkt f, f.op ≠ .data → P (.lossless fn pkt (some f))
  refused : ∀ fn f, P (.refused fn f)
  read : ∀ fn fd b, P (.read fn fd b)

structure Carries (P : TunnelEffect → Prop) (fn : ℕ) : Prop where
  data : ∀ pkt f, P (.lossless fn pkt (some f))
  lossy : ∀ pkt portIdx b, P (.lossy fn pkt portIdx b)

variable {P : TunnelEffect → Prop} {io io' io'' : Io}

namespace Io.Emits

theorem of_logs {l : List TunnelEffect} (h : io.Logs io' l) (hl : ∀ e ∈ l, P e) : io.Emits P io' := ⟨l, h, hl⟩

theorem of_silent (h : io.Logs io' []) : io.Emits P io' := ⟨[], h, by simp⟩

theorem refl (io : Io) : io.Emits P io := of_silent (Io.Does.refl io 0).toLogs

theorem tick (io : Io) : io.Emits P io.tick := of_silent (Io.Does.tick io 0).toLogs

theorem setTun (io : Io) (fn : ℕ) (s : TTSession) : io.Emits P (io.setTun fn s) :=
  of_silent (Io.Logs.setTun io fn s)

theorem emit {e : TunnelEffect} (h : P e) : io.Emits P (io.emit e) := by
  refine of_logs (Io.Does.emit io 0 e).toLogs ?_
  intro e' he'
  rw [List.mem_singleton.mp he']
  exact h

theorem trans (h : io.Emits P io') (h' : io'.Emits P io'') : io.Emits P io'' := by
  obtain ⟨l, hl, hp⟩ := h
  obtain ⟨l', hl', hp'⟩ := h'
  refine ⟨l ++ l', hl.trans hl', ?_⟩
  intro e he
  obtain he | he := List.mem_append.mp he
  · exact hp e he
  · exact hp' e he

theorem owner (h : io.Emits P io') : io'.owner = io.owner := by
  obtain ⟨l, hl, -⟩ := h
  exact hl.owner_eq

theorem foldl {β : Type} {f : Io → β → Io} (hf : ∀ (io : Io) b, io.Emits P (f io b)) (l : List β) (io : Io) :
    io.Emits P (l.foldl f io) := by
  induction l generalizing io with
  | nil => exact .refl io
  | cons b l ih => exact (hf io b).trans (ih _)

end Io.Emits

theorem Io.Emits.of_carriers (hc : Controls P) {fn : ℕ} {l : List TunnelEffect} (h : io.Logs io' l)
    (hl : ∀ e ∈ l, IsCarrier fn e) : io.Emits P io' := by
  refine .of_logs h ?_
  intro e he
  obtain ⟨pkt, rfl⟩ := hl e he
  exact hc.bare fn pkt

section

variable {C : Crypto} {env : TunnelEnv}

theorem tcpSendEx_emits (hc : Controls P) (io : Io) {fn : ℕ} {f : TcpFrame} (hf : f.op = .data → Carries P fn) :
    io.Emits P (tcpSendEx C env io fn f).1 := by
  obtain ⟨l, hl, ⟨-, pkt, -, hd⟩ | ⟨-, hd⟩⟩ := (tcpSendEx_spec C env io fn f).grows
  · refine .of_logs hd.toLogs ?_
    intro e he
    obtain he | he := List.mem_append.mp he
    · obtain ⟨pkt, rfl⟩ := hl e he
      exact hc.bare fn pkt
    · rw [List.mem_singleton.mp he]
      by_cases hop : f.op = .data
      · exact (hf hop).data pkt f
      · exact hc.control fn pkt f hop
  · refine .of_logs hd.toLogs ?_
    intro e he
    obtain he | he := List.mem_append.mp he
    · obtain ⟨pkt, rfl⟩ := hl e he
      exact hc.bare fn pkt
    · rw [List.mem_singleton.mp he]
      exact hc.refused fn f

theorem tcpSend_emits (hc : Controls P) (io : Io) {fn : ℕ} {f : TcpFrame} (hf : f.op ≠ .data) :
    io.Emits P (tcpSend C env io fn f) := tcpSendEx_emits hc io fun h => absurd h hf

theorem tunnelCarrierRetry_emits (hc : Controls P) (io : Io) (fn : ℕ) :
    io.Emits P (tunnelCarrierRetry C env io fn).1 := by
  rw [tunnelCarrierRetry]
  cases io.tun with
  | none => exact .refl io
  | some tun =>
    obtain ⟨⟨l, hd, hl⟩, -⟩ := carrierFlush_spec C env fn 2 io (tun fn)
    have hflush : io.Emits P (carrierFlush C env fn 2 io (tun fn)).1 := .of_carriers hc hd.toLogs hl
    dsimp only
    split_ifs
    · exact .refl io
    · exact hflush.trans (.setTun _ fn _)

theorem ttTunnelE2eeSend_emits (io : Io) {fn : ℕ} (id : UInt8) (frame : Bytes)
    (hP : ∀ pkt, P (.lossless fn pkt none)) : io.Emits P (ttTunnelE2eeSend env io fn id frame none).1 := by
  refine .of_logs (ttTunnelE2eeSend_spec env io fn id frame none).toLogs ?_
  intro e he
  split_ifs at he
  · rw [List.mem_singleton.mp he]
    exact hP _
  · cases he

theorem ttTunnelE2eeStart_emits (io : Io) {fn : ℕ} (hP : ∀ pkt, P (.lossless fn pkt none)) :
    io.Emits P (ttTunnelE2eeStart C env io fn) := by
  rw [ttTunnelE2eeStart]
  cases io.tun with
  | none => exact .refl io
  | some tun =>
    dsimp only
    split_ifs
    · exact .refl io
    · have hset := (Io.Emits.tick (P := P) io).trans (.setTun _ fn (ttSessionStart C (tun fn) (env.ident fn)
          (env.draws io.clock) (env.now io.clock) ttFrameMax).1)
      split
      · exact hset.trans (ttTunnelE2eeSend_emits _ _ _ hP)
      · exact hset

theorem e2eeReply_emits (io : Io) {fn : ℕ} (s : TTSession) (hP : ∀ pkt, P (.lossless fn pkt none)) :
    io.Emits P (e2eeReply C env io fn s) := by
  have hset := (Io.Emits.tick (P := P) io).trans (.setTun _ fn (ttSessionReply C s (env.ident fn)
    (env.draws io.clock) ttFrameMax).1)
  rw [e2eeReply]
  split
  · exact hset.trans (ttTunnelE2eeSend_emits _ _ _ hP)
  · exact hset

theorem ttTunnelE2eeRx_emits (io : Io) {fn : ℕ} (frame : Bytes) (lossy : Bool)
    (hP : ∀ pkt, P (.lossless fn pkt none)) : io.Emits P (ttTunnelE2eeRx C env io fn frame lossy).1 := by
  rw [ttTunnelE2eeRx]
  cases io.tun with
  | none => exact .refl io
  | some tun =>
    have hset (s : TTSession) : io.Emits P (io.tick.setTun fn s) := (Io.Emits.tick io).trans (.setTun _ fn s)
    dsimp only
    by_cases hfn : fn ≥ 256 ∨ (env.ident fn).peerPk = none
    · rw [if_pos hfn]
      exact .refl io
    rw [if_neg hfn]
    generalize ttSessionFeed C (tun fn) (env.ident fn) (env.draws io.clock) frame ttFrameDataMax = r
    cases r.handshaked with
    | true =>
      cases r.ret with
      | error e => exact hset _
      | ok b =>
        cases b with
        | nil =>
          dsimp only
          split_ifs
          · exact (hset _).trans (e2eeReply_emits _ _ hP)
          · exact hset _
        | cons b pt => exact hset _
    | false =>
      cases r.ret with
      | error e =>
        dsimp only
        split_ifs
        · exact (hset _).trans (ttTunnelE2eeStart_emits _ hP)
        · exact hset _
      | ok b => cases b <;> exact hset _

theorem cbFriendLosslessPacket_emits (io : Io) {fn : ℕ} (pkt : Bytes) (hP : ∀ pkt, P (.lossless fn pkt none)) :
    io.Emits P (cbFriendLosslessPacket C env io fn pkt).1 := by
  cases pkt with
  | nil => exact .refl io
  | cons id rest =>
    simp only [cbFriendLosslessPacket]
    by_cases hsealed : id = ttTunnelE2eeSigPacketId ∨ id = ttTunnelE2eeTcpPacketId
    · rw [if_pos hsealed]
      cases rest with
      | nil => exact .refl io
      | cons ver frame =>
        dsimp only
        split_ifs
        · exact ttTunnelE2eeRx_emits io frame false hP
        · exact .refl io
    · rw [if_neg hsealed]
      split_ifs
      · exact .refl io
      · exact .refl io

theorem tunnelKick_emits (hc : Controls P) (io : Io) (fn : ℕ) : io.Emits P (tunnelKick C env io fn) := by
  rw [tunnelKick]
  cases io.tun with
  | none => exact .refl io
  | some tun =>
    dsimp only
    split_ifs
    · exact .refl io
    · exact ttTunnelE2eeStart_emits io (hc.bare fn)
    · exact .refl io

theorem udpSendSealed_emits (io : Io) {fn : ℕ} (portIdx : ℕ) (data : Bytes) (hP : Carries P fn) :
    io.Emits P (udpSendSealed C env io fn portIdx data) := by
  have hsend (io : Io) (frame : Bytes) : io.Emits P (ttTunnelE2eeSendUdp env io fn frame portIdx data) := by
    rw [ttTunnelE2eeSendUdp]
    split_ifs
    · exact .refl io
    · exact (Io.Emits.tick io).trans (.emit (hP.lossy _ portIdx data))
    · exact .tick io
  rw [udpSendSealed]
  cases io.tun with
  | none => exact .refl io
  | some tun =>
    have hset := (Io.Emits.tick (P := P) io).trans (.setTun _ fn (ttSessionSendLossy C (tun fn)
      (udpPack portIdx data) ttFrameMax (env.draws io.clock)).1)
    dsimp only
    split
    · exact hset.trans (hsend _ _)
    · exact hset

theorem tunnelSend_emits (hc : Controls P) (io : Io) {fn : ℕ} (portIdx : ℕ) (data : Bytes) (hP : Carries P fn) :
    io.Emits P (tunnelSend C env io fn portIdx data) := by
  rw [tunnelSend]
  by_cases hlen : data.length > ttTunnelMaxDatagram
  · rw [if_pos hlen]
    exact .refl io
  rw [if_neg hlen]
  cases io.tun with
  | none =>
    dsimp only
    split_ifs
    · exact (Io.Emits.tick io).trans (.emit (hP.lossy _ portIdx data))
    · exact .tick io
  | some tun =>
    dsimp only
    split_ifs
    · exact .refl io
    · exact .refl io
    · exact tunnelCarrierRetry_emits hc io fn
    · exact (tunnelCarrierRetry_emits hc io fn).trans (udpSendSealed_emits _ portIdx data hP)

theorem DrainRun.emitted {live : Prop} {c c' : TTTunnelConn} {l : List TunnelEffect} (hc : Controls P)
    (hP : Carries P c.fn) (h : DrainRun live c l c') : ∀ e ∈ l, P e := by
  induction h with
  | refl => simp
  | step hrun ha ih =>
    intro e' he'
    obtain he' | he' := List.mem_append.mp he'
    · exact ih e' he'
    · rw [List.mem_singleton.mp he']
      cases ha with
      | sent pkt k ho hu hk =>
        rw [hrun.sameSlot.fn]
        exact hP.data pkt _
      | carrier pkt => exact hc.bare _ pkt
      | swallowed k hn ho hu hk => exact hc.refused _ _
      | kept b => exact hc.refused _ _
      | read b => exact hc.read _ _ b

theorem connDrainOut_emits (hc : Controls P) (io : Io) {c : TTTunnelConn} (hP : Carries P c.fn) :
    io.Emits P (connDrainOut C env io c).1 := by
  obtain ⟨l, b, hd, hrun, -⟩ := connDrainOut_live C env io c (False.elim : False → _)
  refine .of_logs hd.toLogs ?_
  intro e he
  obtain he | he := List.mem_append.mp he
  · exact hrun.emitted hc hP e he
  · split_ifs at he
    · cases he
    · rw [List.mem_singleton.mp he]
      exact hc.read _ _ b

theorem connService_emits (hc : Controls P) (io : Io) {c : TTTunnelConn} (hP : Carries P c.fn) :
    io.Emits P (connService C env io c).1 := by
  have hdrain : io.Emits P (connDrainOut C env io c).1 := connDrainOut_emits hc io hP
  rw [connService]
  split_ifs
  · exact hdrain
  · exact hdrain.trans (tcpSend_emits hc _ fun h => by cases h)

theorem pollServe_emits (hc : Controls P) (io : Io) {c : TTTunnelConn} (hP : c.used = true → Carries P c.fn) :
    io.Emits P (pollServe C env io c).1 := by
  rw [pollServe]
  split_ifs with h
  · exact connService_emits hc io (hP h.1)
  · exact .refl io

theorem pollRetryConn_emits (hc : Controls P) (io : Io) {c : TTTunnelConn} (hP : c.used = true → Carries P c.fn) :
    io.Emits P (pollRetryConn C env io c).1 := by
  rw [pollRetryConn]
  split_ifs with h
  · exact connService_emits hc io (hP h.1)
  · exact .refl io

theorem connReturnCredit_emits (hc : Controls P) (io : Io) (c : TTTunnelConn) :
    io.Emits P (connReturnCredit C env io c).1 := by
  rw [connReturnCredit]
  split_ifs
  · exact tcpSend_emits hc _ fun h => by cases h
  · exact .refl io

def Writes (P : TunnelEffect → Prop) (c : TTTunnelConn) (b : Bytes) : Prop :=
  ∀ fd n, c.sock = some fd → P (.wrote c.fn fd b n)

theorem ttSend_emits (io : Io) {c : TTTunnelConn} {b : Bytes} (hs : c.sock.isSome = true) (hP : Writes P c b) :
    io.Emits P (ttSend env io c b) := by
  obtain ⟨fd, hfd⟩ := Option.isSome_iff_exists.mp hs
  have hwrote : P (.wrote c.fn (c.sock.getD 0) b (env.taken io.clock)) := by
    rw [hfd]
    exact hP fd _ hfd
  exact (Io.Emits.tick io).trans (.emit hwrote)

theorem pollConnect_emits (hc : Controls P) (io : Io) {c : TTTunnelConn} (hP : Writes P c c.pend) :
    io.Emits P (pollConnect C env io c).1 := by
  have hctl (op : TTTcpOp) (hop : op ≠ .data) : io.Emits P (tcpSend C env io.tick c.fn (c.frame op [])) :=
    (Io.Emits.tick io).trans (tcpSend_emits hc _ hop)
  rw [pollConnect]
  by_cases hcon : c.connecting = false
  · rw [if_pos hcon]
    exact .refl io
  rw [if_neg hcon]
  cases hs : c.sock with
  | none => exact .tick io
  | some fd =>
    rw [Option.bind_some]
    cases env.soError io.clock with
    | none => exact .tick io
    | some done =>
      cases done with
      | false => exact hctl .openFail (by decide)
      | true =>
        dsimp only
        split_ifs
        · exact hctl .openAck (by decide)
        · have hsome : c.sock.isSome = true := by
            rw [hs]
            rfl
          rw [← hs] at *
          exact (hctl .openAck (by decide)).trans (ttSend_emits _ hsome hP)

theorem pollConnect_closes (io : Io) (c : TTTunnelConn) : Closes c (pollConnect C env io c).2 := by
  rw [pollConnect]
  by_cases hcon : c.connecting = false
  · rw [if_pos hcon]
    exact .refl c
  rw [if_neg hcon]
  cases c.sock.bind fun _ => env.soError io.clock with
  | none => exact .refl c
  | some done =>
    cases done with
    | false => exact connFree_closes c
    | true =>
      dsimp only
      split_ifs
      · exact ⟨id, rfl, rfl, rfl, fun _ h => h⟩
      · exact ⟨id, rfl, rfl, rfl, fun _ h => h⟩

theorem pollHostConn_closes (io : Io) (c : TTTunnelConn) : Closes c (pollHostConn C env io c).2 := by
  rw [pollHostConn]
  split_ifs
  · exact .refl c
  · exact (pollConnect_closes io c).trans (pollServe_closes _ _)

theorem pollHostConn_emits (hc : Controls P) (io : Io) {c : TTTunnelConn} (hP : c.used = true → Carries P c.fn)
    (hw : c.used = true → Writes P c c.pend) : io.Emits P (pollHostConn C env io c).1 := by
  rw [pollHostConn]
  split_ifs with hu
  · exact .refl io
  · have hused : c.used = true := by simpa using hu
    have hclose : Closes c (pollConnect C env io c).2 := pollConnect_closes io c
    refine (pollConnect_emits hc io (hw hused)).trans (pollServe_emits hc _ fun _ => ?_)
    rw [hclose.fn]
    exact hP hused

theorem connPend_closes (c : TTTunnelConn) (payload : Bytes) : Closes c (connPend c payload) := by
  rw [connPend]
  split_ifs
  · exact .refl c
  · exact ⟨id, rfl, rfl, rfl, fun _ h => h⟩

variable (C env) in
theorem rxHostConn_closes (io : Io) (c : TTTunnelConn) (op : TTTcpOp) (payload : Bytes) :
    Closes c (rxHostConn C env io c op payload).2 := by
  cases op with
  | data =>
    rw [rxHostConn]
    split_ifs
    · exact (connPend_closes c payload).trans (connReturnCredit_closes _ _)
    · exact connReturnCredit_closes _ _
    · exact connReturnCredit_closes _ _
  | ack => exact connTakeCredit_closes c payload
  | fin => exact connMarkPeerGone_closes c
  | _ => exact .refl c

variable (C env) in
theorem rxHostConn_emits (hc : Controls P) (io : Io) {c : TTTunnelConn} (op : TTTcpOp) (payload : Bytes)
    (hP : op = .data → Writes P c payload) : io.Emits P (rxHostConn C env io c op payload).1 := by
  cases op with
  | data =>
    rw [rxHostConn]
    split_ifs with h1 h2
    · exact connReturnCredit_emits hc _ _
    · exact (ttSend_emits io h2 (hP rfl)).trans (connReturnCredit_emits hc _ _)
    · exact connReturnCredit_emits hc _ _
  | _ => exact .refl io

theorem rxClientConn_emits (hc : Controls P) (io : Io) {c : TTTunnelConn} (op : TTTcpOp) {payload : Bytes}
    (hP : op = .data → Writes P c payload) : io.Emits P (rxClientConn C env io c op payload).1 := by
  cases op with
  | data =>
    rw [rxClientConn]
    split_ifs with h
    · exact (ttSend_emits io h (hP rfl)).trans (connReturnCredit_emits hc _ _)
    · exact .refl io
  | _ => exact .refl io

variable (C env) in
theorem hostOpenSlot_emits (hc : Controls P) (tcp : TTPortRangeList) (server : Bytes) (io : Io) (c : TTTunnelConn)
    (fn portIdx connid : ℕ) (hP : ∀ s addr clock, portIdx < ttPortListLen tcp →
      env.resolve clock server (ttPortListPort tcp portIdx) = some addr → P (.connect fn s addr)) :
    io.Emits P (hostOpenSlot C env tcp server io c fn portIdx connid).1 ∧
      (hostOpenSlot C env tcp server io c fn portIdx connid).2.fn = fn ∧
      (hostOpenSlot C env tcp server io c fn portIdx connid).2.portIdx = portIdx ∧
      ∀ fd, (hostOpenSlot C env tcp server io c fn portIdx connid).2.sock = some fd →
        ∃ addr clock, portIdx < ttPortListLen tcp ∧
          env.resolve clock server (ttPortListPort tcp portIdx) = some addr ∧
          (io.owner, .connect fn fd addr) ∈ (hostOpenSlot C env tcp server io c fn portIdx connid).1.log := by
  have hctl (io' : Io) (op : TTTcpOp) (hop : op ≠ .data) :
      io'.Emits P (tcpSend C env io' fn ⟨portIdx, connid, op, []⟩) := tcpSend_emits hc io' hop
  have hnone (c : TTTunnelConn) (fd : ℕ) : ¬ (connFree c).sock = some fd := by simp
  rw [hostOpenSlot]
  cases env.socket io.clock with
  | none => exact ⟨(Io.Emits.tick io).trans (hctl _ .openFail (by decide)), rfl, rfl, fun fd h => absurd h (hnone _ fd)⟩
  | some s =>
    dsimp only
    by_cases hport : portIdx ≥ ttPortListLen tcp
    · rw [if_pos hport]
      exact ⟨(Io.Emits.tick io).trans (hctl _ .openFail (by decide)), rfl, rfl, fun fd h => absurd h (hnone _ fd)⟩
    rw [if_neg hport]
    have htwo : io.Emits P io.tick.tick := (Io.Emits.tick io).trans (.tick _)
    cases hres : env.resolve io.tick.clock server (ttPortListPort tcp portIdx) with
    | none => exact ⟨htwo.trans (hctl _ .openFail (by decide)), rfl, rfl, fun fd h => absurd h (hnone _ fd)⟩
    | some addr =>
      have hconn : io.Emits P (io.tick.tick.emit (.connect fn s addr)).tick :=
        (htwo.trans (.emit (hP s addr _ (not_le.mp hport) hres))).trans (.tick _)
      have hmem : (io.owner, TunnelEffect.connect fn s addr) ∈ (io.tick.tick.emit (.connect fn s addr)).tick.log := by
        simp
      dsimp only
      cases env.connect (io.tick.tick.emit (.connect fn s addr)).clock with
      | done =>
        have hack := hctl (io.tick.tick.emit (.connect fn s addr)).tick .openAck (by decide)
        refine ⟨hconn.trans hack, rfl, rfl, ?_⟩
        intro fd hfd
        obtain rfl := Option.some.inj hfd
        obtain ⟨l, hl, -⟩ := hack
        refine ⟨addr, _, not_le.mp hport, hres, ?_⟩
        rw [hl.log_eq]
        exact List.mem_append_left _ hmem
      | inProgress =>
        refine ⟨hconn, rfl, rfl, ?_⟩
        intro fd hfd
        obtain rfl := Option.some.inj hfd
        exact ⟨addr, _, not_le.mp hport, hres, hmem⟩
      | failed => exact ⟨hconn.trans (hctl _ .openFail (by decide)), rfl, rfl, fun fd h => absurd h (hnone _ fd)⟩

theorem pollHostSock_emits (hc : Controls P) (io : Io) {s : TTTunnelSock} (hP : s.used = true → Carries P s.fn) :
    io.Emits P (pollHostSock C env io s) := by
  rw [pollHostSock]
  by_cases hu : s.used = false
  · rw [if_pos hu]
    exact .refl io
  rw [if_neg hu]
  have hused : s.used = true := by simpa using hu
  cases s.sock with
  | none => exact .refl io
  | some fd =>
    dsimp only
    cases env.recv io.clock with
    | data b =>
      dsimp only
      split_ifs
      · exact .tick io
      · have hread : io.Emits P (io.tick.emit (.read s.fn fd (b.take ttTunnelMaxDatagram))) :=
          (Io.Emits.tick io).trans (.emit (hc.read _ _ _))
        exact hread.trans (tunnelSend_emits hc _ s.portIdx _ (hP hused))
    | again => exact .tick io
    | error => exact .tick io

end

end TkTox
