import TkTox.TunnelNet

/-!
Tunnels are isolated while every packet is ignored by all but its own: what one tunnel does with what
it is offered and at a poll goes where it belongs, and from that a step and a run of the two engines.
-/

namespace TkTox

/-- The tunnel keeps what it was set up with, and its sockets are ones to its server. -/
structure Anchored (env : TunnelEnv) (done : List (ℕ × TunnelEffect)) (s : TunnelSetup) (j : ℕ) (tn : TTTunnel) :
    Prop where
  host : tn.host = s.host
  serverHost : tn.serverHost = s.serverHost
  udp : tn.udp = s.udp
  tcp : tn.tcp = s.tcp
  listenSock : tn.listenSock = s.listenSock
  socks : ∀ i, (tn.socks i).used = true →
    ∃ fn portIdx, i = fn * ttTunnelMaxPorts + portIdx ∧ s.Serves env s.udp portIdx (tn.socks i).srv
  conns : s.host = true → ∀ k fd, (tn.conns k).sock = some fd →
    ∃ addr, (j, .connect (tn.conns k).fn fd addr) ∈ done ∧ s.Serves env s.tcp (tn.conns k).portIdx addr

section

variable {C : Crypto} {env : TunnelEnv} {done done' : List (ℕ × TunnelEffect)} {s : TunnelSetup} {j : ℕ}
  {tn tn' : TTTunnel} {a : Option TunnelHead}

theorem tunnelAlloc_anchored (id : ℕ) : Anchored env done s j (tunnelAlloc id s) where
  host := rfl
  serverHost := rfl
  udp := rfl
  tcp := rfl
  listenSock := rfl
  socks i hi := by cases hi
  conns _ k fd hk := by cases hk

theorem Anchored.mono (h : Anchored env done s j tn) (hd : ∀ d ∈ done, d ∈ done') : Anchored env done' s j tn where
  host := h.host
  serverHost := h.serverHost
  udp := h.udp
  tcp := h.tcp
  listenSock := h.listenSock
  socks := h.socks
  conns hh k fd hk := by
    obtain ⟨addr, hmem, hserve⟩ := h.conns hh k fd hk
    exact ⟨addr, hd _ hmem, hserve⟩

theorem Anchored.same (h : Anchored env done s j tn) (hs : SameSetup tn tn')
    (hc : s.host = true → ∀ k, Closes (tn.conns k) (tn'.conns k)) : Anchored env done s j tn' where
  host := hs.host.trans h.host
  serverHost := hs.serverHost.trans h.serverHost
  udp := hs.udp.trans h.udp
  tcp := hs.tcp.trans h.tcp
  listenSock := hs.listenSock.trans h.listenSock
  socks := by
    rw [hs.socks]
    exact h.socks
  conns hh k fd hk := by
    rw [(hc hh k).fn, (hc hh k).portIdx]
    exact h.conns hh k fd ((hc hh k).sock fd hk)

theorem Anchored.setConn (h : Anchored env done s j tn) {k : Fin ttTunnelMaxConns} {c : TTTunnelConn}
    (hc : s.host = true → ∀ fd, c.sock = some fd →
      ∃ addr, (j, .connect c.fn fd addr) ∈ done ∧ s.Serves env s.tcp c.portIdx addr) :
    Anchored env done s j (tn.setConn k c) where
  host := h.host
  serverHost := h.serverHost
  udp := h.udp
  tcp := h.tcp
  listenSock := h.listenSock
  socks := h.socks
  conns hh k' fd := by
    by_cases hk : k' = k
    · simpa [TTTunnel.setConn, hk] using hc hh fd
    · simpa [TTTunnel.setConn, hk] using h.conns hh k' fd

theorem Anchored.setClosed (h : Anchored env done s j tn) {k : Fin ttTunnelMaxConns} {c : TTTunnelConn}
    (hc : Closes (tn.conns k) c) : Anchored env done s j (tn.setConn k c) := by
  apply h.setConn
  intro hh fd hfd
  rw [hc.fn, hc.portIdx]
  exact h.conns hh k fd (hc.sock fd hfd)

theorem Anchored.setSock (h : Anchored env done s j tn) {fn portIdx : ℕ} (so : TTTunnelSock)
    (hs : s.Serves env s.udp portIdx so.srv) :
    Anchored env done s j (tn.setSock (fn * ttTunnelMaxPorts + portIdx) so) where
  host := h.host
  serverHost := h.serverHost
  udp := h.udp
  tcp := h.tcp
  listenSock := h.listenSock
  socks i hi := by
    by_cases he : i = fn * ttTunnelMaxPorts + portIdx
    · refine ⟨fn, portIdx, he, ?_⟩
      simpa [TTTunnel.setSock, he] using hs
    · simp only [TTTunnel.setSock, Function.update_of_ne he] at hi ⊢
      exact h.socks i hi
  conns := h.conns

theorem home_controls : Controls (Home env done s tn j a) :=
  ⟨fun _ _ => trivial, fun _ _ _ _ => trivial, fun _ _ => trivial, fun _ _ _ => trivial⟩

theorem home_carries (fn : ℕ) : Carries (Home env done s tn j a) fn := ⟨fun _ _ => trivial, fun _ _ _ => trivial⟩

theorem home_writes (h : Anchored env done s j tn) {fn : ℕ} {hd : TcpHead} {k : Fin ttTunnelMaxConns}
    (hf : tn.connFind fn hd.connid = some k) :
    Writes (Home env done s tn j (some (.tcp hd))) (tn.conns k) hd.payload := by
  intro fd n hfd
  obtain ⟨hu, -, hid⟩ := connFind_matches hf
  exact ⟨k, hu, rfl, hfd, .inl ⟨hd, rfl, hid, rfl⟩, fun hh => h.conns hh k fd hfd⟩

theorem home_pending (h : Anchored env done s j tn) {k : Fin ttTunnelMaxConns} (hu : (tn.conns k).used = true) :
    Writes (Home env done s tn j none) (tn.conns k) (tn.conns k).pend := by
  intro fd n hfd
  exact ⟨k, hu, rfl, hfd, .inr ⟨rfl, rfl⟩, fun hh => h.conns hh k fd hfd⟩

theorem hostForward_home (h : Anchored env done s j tn) (hports : ttPortListLen s.udp ≤ ttTunnelMaxPorts)
    (hh : s.host = true) (io : Io) (fn portIdx : ℕ) (data : Bytes) :
    io.Emits (Home env done s tn j (some (.udp portIdx data))) (hostForward env io tn fn portIdx data).1 ∧
      Anchored env done s j (hostForward env io tn fn portIdx data).2 := by
  have hserve {srv clock : ℕ} (hlt : portIdx < ttPortListLen tn.udp)
      (hres : env.resolve clock tn.serverHost (ttPortListPort tn.udp portIdx) = some srv) :
      s.Serves env s.udp portIdx srv := by
    rw [h.udp] at hlt hres
    rw [h.serverHost] at hres
    exact ⟨hh, hlt, clock, hres⟩
  obtain ⟨hemit, htn⟩ := hostForward_emits env (Home env done s tn j (some (.udp portIdx data))) tn io fn portIdx data
    (fun _ hlt fd srv clock hres => ⟨⟨portIdx, data, rfl, hserve hlt hres⟩, portIdx, rfl, hserve hlt hres⟩)
    (fun _ fd hu hlt => by
      obtain ⟨fn', portIdx', hi, hs⟩ := h.socks _ hu
      have hp : portIdx' = portIdx := by
        have hlt' := hs.2.1
        rw [h.udp] at hlt
        simp only [ttTunnelMaxPorts] at hi hports
        omega
      rw [hp] at hs
      exact ⟨portIdx, rfl, hs⟩)
  refine ⟨hemit, ?_⟩
  obtain htn | ⟨-, -, hlt, fd, srv, clock, hres, htn⟩ := htn
  · rw [htn]
    exact h
  · rw [htn]
    exact h.setSock ⟨true, fn, portIdx, some fd, srv⟩ (hserve hlt hres)

theorem tunnelRx_home (h : Anchored env done s j tn) (hports : ttPortListLen s.udp ≤ ttTunnelMaxPorts) (io : Io)
    (fn portIdx : ℕ) (data : Bytes) :
    io.Emits (Home env done s tn j (some (.udp portIdx data))) (tunnelRx env fn portIdx data io tn).1 ∧
      Anchored env done s j (tunnelRx env fn portIdx data io tn).2 := by
  rw [tunnelRx]
  by_cases hp : tn.pending = true
  · rw [if_pos hp]
    exact ⟨.refl io, h⟩
  rw [if_neg hp]
  by_cases hh : tn.host = true
  · rw [if_pos hh]
    exact hostForward_home h hports (h.host.symm.trans hh) io fn portIdx data
  rw [if_neg hh]
  by_cases hclient : fn = tn.peerFn ∧ portIdx < ttPortListLen tn.udpLocal ∧ tn.peerSet portIdx = true
  · rw [if_pos hclient]
    cases hl : tn.listenSock portIdx with
    | none => exact ⟨.refl io, h⟩
    | some fd =>
      refine ⟨.emit ⟨?_, portIdx, rfl, ?_, rfl⟩, h⟩
      · rw [← h.host]
        simpa using hh
      · rw [← h.listenSock]
        exact hl
  · rw [if_neg hclient]
    exact ⟨.refl io, h⟩

theorem hostOpenConn_home (h : Anchored env done s j tn) (hh : s.host = true) {io : Io} (ho : io.owner = j) (fn : ℕ)
    (hd : TcpHead) :
    io.Emits (Home env done s tn j (some (.tcp hd))) (hostOpenConn C env io tn fn hd.portIdx hd.connid).1 ∧
      Anchored env (done ++ (hostOpenConn C env io tn fn hd.portIdx hd.connid).1.log) s j
        (hostOpenConn C env io tn fn hd.portIdx hd.connid).2 := by
  have hserve {addr clock : ℕ} (hlt : hd.portIdx < ttPortListLen tn.tcp)
      (hres : env.resolve clock tn.serverHost (ttPortListPort tn.tcp hd.portIdx) = some addr) :
      s.Serves env s.tcp hd.portIdx addr := by
    rw [h.tcp] at hlt hres
    rw [h.serverHost] at hres
    exact ⟨hh, hlt, clock, hres⟩
  have hold (l : List (ℕ × TunnelEffect)) : Anchored env (done ++ l) s j tn :=
    h.mono fun _ => List.mem_append_left l
  rw [hostOpenConn]
  cases tn.connFind fn hd.connid with
  | some k => exact ⟨.refl io, hold _⟩
  | none =>
    dsimp only
    cases tn.connFreeSlot with
    | none => exact ⟨tcpSend_emits home_controls io (fun h => by cases h), hold _⟩
    | some k =>
      obtain ⟨hemit, hfn, hport, hsock⟩ := hostOpenSlot_emits C env
        (home_controls : Controls (Home env done s tn j (some (.tcp hd)))) tn.tcp tn.serverHost io (tn.conns k) fn
        hd.portIdx hd.connid fun _ addr clock hlt hres => ⟨hd, rfl, hserve hlt hres⟩
      refine ⟨hemit, (hold _).setConn ?_⟩
      intro _ fd hfd
      obtain ⟨addr, clock, hlt, hres, hmem⟩ := hsock fd hfd
      rw [ho] at hmem
      rw [hfn, hport]
      exact ⟨addr, List.mem_append_right _ hmem, hserve hlt hres⟩

theorem tunnelTcpRxHost_home (h : Anchored env done s j tn) (hh : s.host = true) {io : Io} (ho : io.owner = j)
    (fn : ℕ) (hd : TcpHead) :
    io.Emits (Home env done s tn j (some (.tcp hd))) (tunnelTcpRxHost C env io tn fn hd).1 ∧
      Anchored env (done ++ (tunnelTcpRxHost C env io tn fn hd).1.log) s j (tunnelTcpRxHost C env io tn fn hd).2 := by
  have hold {tn' : TTTunnel} (l : List (ℕ × TunnelEffect)) (h : Anchored env done s j tn') :
      Anchored env (done ++ l) s j tn' := h.mono fun _ => List.mem_append_left l
  rw [tunnelTcpRxHost]
  cases TTTcpOp.ofByte hd.opcode with
  | none => exact ⟨.refl io, hold _ h⟩
  | some op =>
    cases hf : tn.connFind fn hd.connid with
    | none =>
      cases op with
      | «open» => exact hostOpenConn_home h hh ho fn hd
      | _ => exact ⟨.refl io, hold _ h⟩
    | some k =>
      have hrx (op : TTTcpOp) := rxHostConn_emits C env home_controls io op hd.payload
        fun _ => home_writes h hf
      have hclose (op : TTTcpOp) := rxHostConn_closes C env io (tn.conns k) op hd.payload
      cases op with
      | «open» => exact hostOpenConn_home h hh ho fn hd
      | _ => exact ⟨hrx _, hold _ (h.setClosed (hclose _))⟩

theorem tunnelTcpRxClient_home (h : Anchored env done s j tn) (io : Io) (fn : ℕ) (hd : TcpHead) :
    io.Emits (Home env done s tn j (some (.tcp hd))) (tunnelTcpRxClient C env io tn fn hd).1 ∧
      Anchored env done s j (tunnelTcpRxClient C env io tn fn hd).2 := by
  rw [tunnelTcpRxClient]
  by_cases hport : hd.portIdx ≥ ttPortListLen tn.tcpLocal
  · rw [if_pos hport]
    exact ⟨.refl io, h⟩
  rw [if_neg hport]
  cases TTTcpOp.ofByte hd.opcode with
  | none => exact ⟨.refl io, h⟩
  | some op =>
    cases hf : tn.connFind fn hd.connid with
    | none => exact ⟨.refl io, h⟩
    | some k =>
      exact ⟨rxClientConn_emits home_controls io op fun _ => home_writes h hf,
        h.setClosed (rxClientConn_closes io (tn.conns k) op hd.payload)⟩

theorem rx_home (h : Anchored env done s j tn) (hports : ttPortListLen s.udp ≤ ttTunnelMaxPorts) (io : Io)
    (ho : io.owner = j) (fn : ℕ) (a : TunnelHead) :
    io.Emits (Home env done s tn j (some a)) (a.rx C env fn io tn).1 ∧
      Anchored env (done ++ (a.rx C env fn io tn).1.log) s j (a.rx C env fn io tn).2 := by
  have hold {tn' : TTTunnel} (l : List (ℕ × TunnelEffect)) (h : Anchored env done s j tn') :
      Anchored env (done ++ l) s j tn' := h.mono fun _ => List.mem_append_left l
  cases a with
  | udp portIdx data =>
    obtain ⟨hemit, ha⟩ := tunnelRx_home h hports io fn portIdx data
    exact ⟨hemit, hold _ ha⟩
  | tcp hd =>
    rw [TunnelHead.rx, tunnelRxTcp]
    by_cases hp : tn.pending = true
    · rw [if_pos hp]
      exact ⟨.refl io, hold _ h⟩
    rw [if_neg hp]
    by_cases hh : tn.host = true
    · rw [if_pos hh]
      exact tunnelTcpRxHost_home h (h.host.symm.trans hh) ho fn hd
    rw [if_neg hh]
    split_ifs
    · obtain ⟨hemit, ha⟩ := tunnelTcpRxClient_home (C := C) h io fn hd
      exact ⟨hemit, hold _ ha⟩
    · exact ⟨.refl io, hold _ h⟩

theorem tunnelPoll_home (h : Anchored env done s j tn) (io : Io) :
    io.Emits (Home env done s tn j none) (tunnelPoll C env io tn).1 ∧
      ∀ tn' ∈ (tunnelPoll C env io tn).2, Anchored env done s j tn' := by
  apply tunnelPoll_emits C env home_controls io (R := Anchored env done s j) ?_ h
  intro io' tn' hs hconns
  have h' : Anchored env done s j tn' := by
    apply h.same hs
    intro _ k
    rw [hconns]
    exact .refl _
  by_cases hh : tn'.host = true
  · rw [if_pos hh]
    obtain ⟨hemit, hs', hclose⟩ := tunnelPollHost_emits C env
      (home_controls : Controls (Home env done s tn j none)) io' tn'
      (fun _ _ => home_carries _) (fun _ _ => home_carries _) fun k hu => by
        rw [hconns] at hu ⊢
        exact home_pending h hu
    exact ⟨hemit, h'.same hs' fun _ => hclose⟩
  · rw [if_neg hh]
    obtain ⟨hemit, hs'⟩ := tunnelPollClient_emits C env
      (home_controls : Controls (Home env done s tn j none)) home_carries io' tn'
    refine ⟨hemit, h'.same hs' ?_⟩
    intro hhost
    rw [h'.host] at hh
    exact absurd hhost hh

end

namespace TunnelNet

variable {C : Crypto} {cfg : NetCfg} {w : TunnelNet}

def Anchored (cfg : NetCfg) (w : TunnelNet) : Prop :=
  ∀ e j, ∀ tn ∈ w.table e j, ∃ s ∈ cfg.setup e j, TkTox.Anchored (cfg.env e) (w.did e) s j tn

theorem start_anchored (tun : NetEnd → Option (ℕ → TTSession)) : (start cfg tun).Anchored cfg := by
  intro e j tn htn
  obtain ⟨s, hs, rfl⟩ := Option.map_eq_some_iff.mp htn
  exact ⟨s, hs, tunnelAlloc_anchored _⟩

theorem losslessTurn_eq (e : NetEnd) (p : NetPacket) : w.losslessTurn C cfg e p =
    offerAll C (cfg.env e) (cbFriendLosslessPacket C (cfg.env e) (w.ready e) (cfg.fn e) p.pkt).1 (w.table e)
      (cfg.fn e) (w.losslessHead C cfg e p) := by
  rw [losslessTurn, losslessHead]
  cases (cbFriendLosslessPacket C (cfg.env e) (w.ready e) (cfg.fn e) p.pkt).2 <;> rfl

theorem lossyTurn_eq (e : NetEnd) (p : NetPacket) : w.lossyTurn C cfg e p =
    offerAll C (cfg.env e) (cbFriendLossyPacket C (cfg.env e) (w.ready e) (cfg.fn e) p.pkt).1 (w.table e)
      (cfg.fn e) (w.lossyHead C cfg e p) := by
  rw [lossyTurn, lossyHead]
  cases (cbFriendLossyPacket C (cfg.env e) (w.ready e) (cfg.fn e) p.pkt).2 <;> rfl

variable (C) in
theorem lossless_carriers (e : NetEnd) (pkt : Bytes) :
    (w.ready e).Emits (IsCarrier (cfg.fn e)) (cbFriendLosslessPacket C (cfg.env e) (w.ready e) (cfg.fn e) pkt).1 :=
  cbFriendLosslessPacket_emits _ pkt fun pkt => ⟨pkt, rfl⟩

variable (C) in
theorem lossy_carriers (e : NetEnd) (pkt : Bytes) :
    (w.ready e).Emits (IsCarrier (cfg.fn e)) (cbFriendLossyPacket C (cfg.env e) (w.ready e) (cfg.fn e) pkt).1 := by
  cases pkt with
  | nil => exact .refl _
  | cons id rest =>
    cases rest with
    | nil => exact .refl _
    | cons ver frame =>
      simp only [cbFriendLossyPacket]
      split_ifs
      · exact ttTunnelE2eeRx_emits _ frame true fun pkt => ⟨pkt, rfl⟩
      · exact .refl _

/-- What `e` does when a packet of `owner`'s, with this header, has been through the session layer. -/
structure Received (cfg : NetCfg) (w : TunnelNet) (e : NetEnd) (owner : ℕ) (hd : Option TunnelHead)
    (r : Io × TunnelTable) : Prop where
  untouched : ∀ a ∈ hd, ∀ j, cfg.pair e owner ≠ some j → r.2 j = w.table e j
  home : ∀ d ∈ r.1.log, (d.1 = ttTunnelMaxTunnels ∧ IsCarrier (cfg.fn e) d.2) ∨
    ∃ a ∈ hd, ∃ j : Fin ttTunnelMaxTunnels, d.1 = j ∧ cfg.pair e owner = some j ∧
      ∃ s ∈ cfg.setup e j, ∃ tn ∈ w.table e j, Home (cfg.env e) (w.did e) s tn j (some a) d.2
  anchored : ∀ j, ∀ tn ∈ r.2 j, ∃ s ∈ cfg.setup e j, TkTox.Anchored (cfg.env e) (w.did e ++ r.1.log) s j tn

theorem received (ha : w.Anchored cfg) {e : NetEnd} (owner : ℕ) {io : Io} (hd : Option TunnelHead)
    (hio : (w.ready e).Emits (IsCarrier (cfg.fn e)) io)
    (hok : ∀ a ∈ hd, ∀ j, ∀ tn ∈ w.table e j, cfg.pair e owner ≠ some j → tn.Ignores (cfg.fn e) a) :
    Received cfg w e owner hd (offerAll C (cfg.env e) io (w.table e) (cfg.fn e) hd) := by
  obtain ⟨l, hl, hcar⟩ := hio
  have hlog : io.log = l.map (Prod.mk ttTunnelMaxTunnels) := hl.log_eq
  have hsession (d : ℕ × TunnelEffect) (h : d ∈ io.log) :
      d.1 = ttTunnelMaxTunnels ∧ IsCarrier (cfg.fn e) d.2 := by
    rw [hlog] at h
    obtain ⟨x, hx, rfl⟩ := List.mem_map.mp h
    exact ⟨rfl, hcar x hx⟩
  have hkept (l : List (ℕ × TunnelEffect)) (j : Fin ttTunnelMaxTunnels) :
      ∀ tn ∈ w.table e j, ∃ s ∈ cfg.setup e j, TkTox.Anchored (cfg.env e) (w.did e ++ l) s j tn := by
    intro tn htn
    obtain ⟨s, hs, han⟩ := ha e j tn htn
    exact ⟨s, hs, han.mono fun _ => List.mem_append_left l⟩
  cases hd with
  | none => exact ⟨fun _ _ _ _ => rfl, fun d h => .inl (hsession d h), hkept _⟩
  | some hd =>
    have hother (j : Fin ttTunnelMaxTunnels) (hj : cfg.pair e owner ≠ some j) (io : Io) :
        offer (hd.rx C (cfg.env e) (cfg.fn e)) j io (w.table e j) = (io, w.table e j) := by
      cases htn : w.table e j with
      | none => rfl
      | some tn =>
        rw [offer, ignored (hok hd rfl j tn htn hj)]
    simp only [offerAll]
    cases hpair : cfg.pair e owner with
    | none =>
      have hsame : Machine.forSlots (offer (hd.rx C (cfg.env e) (cfg.fn e))) io (w.table e) = (io, w.table e) := by
        apply Machine.forSlots_self
        intro j io
        apply hother
        rw [hpair]
        exact Option.some_ne_none j |>.symm
      rw [hsame]
      exact ⟨fun _ _ _ _ => rfl, fun d h => .inl (hsession d h), hkept _⟩
    | some i =>
      have honly : Machine.forSlots (offer (hd.rx C (cfg.env e) (cfg.fn e))) io (w.table e) =
          Machine.visit (offer (hd.rx C (cfg.env e) (cfg.fn e))) (io, w.table e) i := by
        apply Machine.forSlots_only
        intro j hj io
        apply hother
        rw [hpair]
        intro h
        exact hj (Option.some.inj h).symm
      have hfar {j : Fin ttTunnelMaxTunnels} (hj : j ≠ i) (x : Option TTTunnel) :
          Function.update (w.table e) i x j = w.table e j := Function.update_of_ne hj x (w.table e)
      rw [honly]
      simp only [Machine.visit]
      cases htn : w.table e i with
      | none =>
        have hsame : Function.update (w.table e) i none = w.table e := by
          rw [← htn, Function.update_eq_self]
        simp only [offer, hsame]
        exact ⟨fun _ _ _ _ => rfl, fun d h => .inl (hsession d h), hkept _⟩
      | some tn =>
        obtain ⟨s, hs, han⟩ := ha e i tn htn
        obtain ⟨hemit, han'⟩ := rx_home (C := C) han (cfg.ports e i s hs) { io with owner := i } rfl
          (cfg.fn e) hd
        obtain ⟨l', hl', hhome⟩ := hemit
        have hlog' : (hd.rx C (cfg.env e) (cfg.fn e) { io with owner := i } tn).1.log =
            io.log ++ l'.map (Prod.mk i.val) := hl'.log_eq
        simp only [offer]
        constructor
        · intro a _ j hj
          apply hfar
          rintro rfl
          exact hj hpair
        · intro d h
          rw [hlog'] at h
          obtain h | h := List.mem_append.mp h
          · exact .inl (hsession d h)
          · obtain ⟨x, hx, rfl⟩ := List.mem_map.mp h
            exact .inr ⟨hd, rfl, i, rfl, hpair, s, hs, tn, htn, hhome x hx⟩
        · intro j tn' htn'
          by_cases hj : j = i
          · subst hj
            simp only [Function.update_self] at htn'
            obtain rfl := Option.some.inj htn'
            exact ⟨s, hs, han'⟩
          · simp only [hfar hj] at htn'
            exact hkept _ j tn' htn'

theorem polled (ha : w.Anchored cfg) (e : NetEnd) :
    (∀ d ∈ (ttTunnelPoll C (cfg.env e) (w.ready e) (w.table e)).1.log, ∃ j : Fin ttTunnelMaxTunnels, d.1 = j ∧
      ∃ s ∈ cfg.setup e j, ∃ tn ∈ w.table e j, Home (cfg.env e) (w.did e) s tn j none d.2) ∧
    ∀ j, ∀ tn ∈ (ttTunnelPoll C (cfg.env e) (w.ready e) (w.table e)).2 j,
      ∃ s ∈ cfg.setup e j, TkTox.Anchored (cfg.env e) (w.did e) s j tn := by
  refine Machine.forSlots_rule (f := pollTurn C (cfg.env e))
    (P := fun io : Io => ∀ d ∈ io.log, ∃ j : Fin ttTunnelMaxTunnels, d.1 = j ∧
      ∃ s ∈ cfg.setup e j, ∃ tn ∈ w.table e j, Home (cfg.env e) (w.did e) s tn j none d.2)
    (Q := fun j o => o = w.table e j)
    (R := fun j o => ∀ tn ∈ o, ∃ s ∈ cfg.setup e j, TkTox.Anchored (cfg.env e) (w.did e) s j tn) ?_ ?_ fun _ => rfl
  · rintro j io o hio rfl
    cases htn : w.table e j with
    | none => exact ⟨hio, by simp [pollTurn]⟩
    | some tn =>
      obtain ⟨s, hs, han⟩ := ha e j tn htn
      obtain ⟨⟨l, hl, hhome⟩, hnext⟩ := tunnelPoll_home (C := C) han { io with owner := j }
      have hlog : (tunnelPoll C (cfg.env e) { io with owner := j } tn).1.log = io.log ++ l.map (Prod.mk j.val) :=
        hl.log_eq
      refine ⟨?_, fun tn' h => ⟨s, hs, hnext tn' h⟩⟩
      intro d h
      rw [pollTurn, hlog] at h
      obtain h | h := List.mem_append.mp h
      · exact hio d h
      · obtain ⟨x, hx, rfl⟩ := List.mem_map.mp h
        exact ⟨j, rfl, s, hs, tn, htn, hhome x hx⟩
  · intro d h
    cases h

@[simp] theorem act_table_self (e : NetEnd) (r : Io × TunnelTable) : (w.act cfg e r).table e = r.2 := by
  simp [act]

@[simp] theorem act_did_self (e : NetEnd) (r : Io × TunnelTable) :
    (w.act cfg e r).did e = w.did e ++ r.1.log := by
  simp [act]

theorem act_table_of_ne {e e' : NetEnd} (h : e' ≠ e) (r : Io × TunnelTable) :
    (w.act cfg e r).table e' = w.table e' := by
  simp [act, h]

theorem act_did_of_ne {e e' : NetEnd} (h : e' ≠ e) (r : Io × TunnelTable) : (w.act cfg e r).did e' = w.did e' := by
  simp [act, h]

theorem Anchored.act (ha : w.Anchored cfg) {e : NetEnd} {r : Io × TunnelTable}
    (hr : ∀ j, ∀ tn ∈ r.2 j, ∃ s ∈ cfg.setup e j, TkTox.Anchored (cfg.env e) (w.did e ++ r.1.log) s j tn) :
    (w.act cfg e r).Anchored cfg := by
  intro e' j tn htn
  obtain rfl | hne := eq_or_ne e' e
  · rw [act_table_self] at htn
    rw [act_did_self]
    exact hr j tn htn
  · rw [act_table_of_ne hne] at htn
    rw [act_did_of_ne hne]
    exact ha e' j tn htn

theorem home_of_act {e : NetEnd} {r : Io × TunnelTable} {B : NetEnd → ℕ × TunnelEffect → Prop}
    (hr : ∀ d ∈ r.1.log, B e d) (e' : NetEnd) :
    ∃ l, (w.act cfg e r).did e' = w.did e' ++ l ∧ ∀ d ∈ l, B e' d := by
  obtain rfl | hne := eq_or_ne e' e
  · exact ⟨r.1.log, act_did_self e' r, hr⟩
  · exact ⟨[], by rw [act_did_of_ne hne, List.append_nil], by simp⟩

theorem isolated_of_received {op : NetOp} {e : NetEnd} {owner : ℕ} {hd : Option TunnelHead} {r : Io × TunnelTable}
    (harr : w.arrival C cfg op = hd.map fun a => (e, owner, a)) (w' : TunnelNet)
    (hd' : w'.did = w.did) (hstep : w.step C cfg op = w'.act cfg e r) (hr : Received cfg w e owner hd r) :
    Isolated cfg C w op := by
  constructor
  · intro x hx j hj
    rw [harr] at hx
    obtain ⟨a, hmem, rfl⟩ := Option.map_eq_some_iff.mp hx
    rw [hstep, act_table_self]
    exact hr.untouched a hmem j hj
  · rw [hstep, ← hd']
    apply home_of_act
    intro d hdm
    obtain hs | ⟨a, hmem, j, hj, hpair, hhome⟩ := hr.home d hdm
    · exact .inl hs
    · have harr' : w.arrival C cfg op = some (e, owner, a) := by
        rw [harr, hmem]
        rfl
      refine .inr ⟨j, hj, ?_, ?_⟩
      · rw [harr']
        rintro x ⟨⟩
        exact ⟨rfl, hpair⟩
      · rw [harr']
        exact hhome

theorem step_isolated (ha : w.Anchored cfg) {op : NetOp} (hok : NetOk C cfg w op) :
    Isolated cfg C w op ∧ (w.step C cfg op).Anchored cfg := by
  have hidle (h : w.arrival C cfg op = none) (ht : (w.step C cfg op).table = w.table)
      (hd : (w.step C cfg op).did = w.did) : Isolated cfg C w op ∧ (w.step C cfg op).Anchored cfg := by
    refine ⟨⟨by simp [h], fun e => ⟨[], by rw [hd, List.append_nil], by simp⟩⟩, ?_⟩
    rw [Anchored, ht, hd]
    exact ha
  cases op with
  | poll e =>
    obtain ⟨hhome, hanc⟩ := polled (C := C) ha e
    refine ⟨⟨by simp [arrival], ?_⟩, ?_⟩
    · apply home_of_act
      intro d hd
      obtain ⟨j, hj, hs⟩ := hhome d hd
      exact .inr ⟨j, hj, by simp [arrival], hs⟩
    · apply ha.act
      intro j tn htn
      obtain ⟨s, hs, h⟩ := hanc j tn htn
      exact ⟨s, hs, h.mono fun _ => List.mem_append_left _⟩
  | lossless e =>
    cases hw : w.lossless e with
    | nil =>
      apply hidle
      · simp [arrival, hw]
      · simp only [step, hw]
      · simp only [step, hw]
    | cons p rest =>
      have harr : w.arrival C cfg (.lossless e) = (w.losslessHead C cfg e p).map fun a => (e, p.owner, a) := by
        simp [arrival, hw]
      have hr := received (C := C) ha p.owner (w.losslessHead C cfg e p) (lossless_carriers C e p.pkt) fun a hmem =>
        hok (e, p.owner, a) (by rw [harr, hmem]; rfl)
      rw [← losslessTurn_eq] at hr
      refine ⟨isolated_of_received harr { w with lossless := Function.update w.lossless e rest } rfl ?_ hr, ?_⟩
      · simp only [step, hw]
      · have ha' : ({ w with lossless := Function.update w.lossless e rest } : TunnelNet).Anchored cfg := ha
        simp only [step, hw]
        exact ha'.act hr.anchored
  | lossy e k =>
    cases hw : (w.lossy e)[k]? with
    | none =>
      apply hidle
      · simp [arrival, hw]
      · simp only [step, hw]
      · simp only [step, hw]
    | some p =>
      have harr : w.arrival C cfg (.lossy e k) = (w.lossyHead C cfg e p).map fun a => (e, p.owner, a) := by
        simp [arrival, hw]
      have hr := received (C := C) ha p.owner (w.lossyHead C cfg e p) (lossy_carriers C e p.pkt) fun a hmem =>
        hok (e, p.owner, a) (by rw [harr, hmem]; rfl)
      rw [← lossyTurn_eq] at hr
      refine ⟨isolated_of_received harr w rfl ?_ hr, ?_⟩
      · simp only [step, hw]
      · simp only [step, hw]
        exact ha.act hr.anchored
  | lose e k => exact hidle rfl rfl rfl
  | session e tun => exact hidle rfl rfl rfl

end TunnelNet

namespace Instance

def netEnv : TunnelEnv :=
  { hostEnv with
    resolve := fun _ host _ => host.head?.map UInt8.toNat
    recv := fun c => if c = 0 then .data [9] else .again
    accept := fun c => if c = 2 then some 9 else none }

def netClient (fn : ℕ) : TunnelSetup :=
  { busySetup with peerFn := fn, listenSock := fun _ => some 2, udp := [⟨100, 1⟩], udpLocal := [⟨100, 1⟩] }

def slots (a b : TunnelSetup) (j : Fin ttTunnelMaxTunnels) : Option TunnelSetup :=
  if j = 0 then some a else if j = 1 then some b else none

theorem slots_ports {a b : TunnelSetup} (ha : ttPortListLen a.udp ≤ ttTunnelMaxPorts)
    (hb : ttPortListLen b.udp ≤ ttTunnelMaxPorts) (j : Fin ttTunnelMaxTunnels) :
    ∀ s ∈ slots a b j, ttPortListLen s.udp ≤ ttTunnelMaxPorts := by
  intro s hs
  rw [slots] at hs
  split_ifs at hs
  · obtain rfl := Option.some.inj hs
    exact ha
  · obtain rfl := Option.some.inj hs
    exact hb
  · cases hs

def twoTunnels (near far : TunnelSetup × TunnelSetup)
    (h : ∀ s ∈ [near.1, near.2, far.1, far.2], ttPortListLen s.udp ≤ ttTunnelMaxPorts) : NetCfg where
  env _ := netEnv
  fn _ := 0
  setup
    | .near => slots near.1 near.2
    | .far => slots far.1 far.2
  pair _ i := if h : i < ttTunnelMaxTunnels then some ⟨i, h⟩ else none
  ports := by
    intro e
    cases e with
    | near => exact slots_ports (h _ (by simp)) (h _ (by simp))
    | far => exact slots_ports (h _ (by simp)) (h _ (by simp))

def twoShares : NetCfg :=
  twoTunnels (netClient 0, netClient 0) (hostSetup, { hostSetup with serverHost := [50] }) (by decide)

def twoSharesStart : TunnelNet := .start twoShares fun _ => none

theorem not_isolated {cfg : NetCfg} {C : Crypto} {w : TunnelNet} {op : NetOp} (e : NetEnd) (owner : ℕ)
    (hd : TunnelHead) (d : ℕ × TunnelEffect) (harr : w.arrival C cfg op = some (e, owner, hd))
    (hold : w.did e = []) (hd : d ∈ (w.step C cfg op).did e) (hslot : d.1 ≠ ttTunnelMaxTunnels)
    (hpair : ∀ j ∈ cfg.pair e owner, d.1 ≠ j.val) : ¬ Isolated cfg C w op := by
  intro h
  obtain ⟨l, hl, hall⟩ := h.home e
  rw [hl, hold, List.nil_append] at hd
  obtain ⟨hs, -⟩ | ⟨j, hj, hmine, -⟩ := hall d hd
  · exact hslot hs
  · exact hpair j (hmine _ harr).2 hj

def oneShare : NetCfg := twoTunnels (netClient 0, netClient 3) (hostSetup, netClient 3) (by decide)

end Instance

end TkTox
