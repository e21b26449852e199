import TkTox.TunnelEffects

/-!
What a turn of a whole tunnel does to the outside and what it leaves alone: a forwarded datagram and
a poll.
-/

namespace TkTox

structure SameSetup (tn tn' : TTTunnel) : Prop where
  host : tn'.host = tn.host
  serverHost : tn'.serverHost = tn.serverHost
  udp : tn'.udp = tn.udp
  tcp : tn'.tcp = tn.tcp
  allow : tn'.allow = tn.allow
  listenSock : tn'.listenSock = tn.listenSock
  socks : tn'.socks = tn.socks

theorem SameSetup.refl (tn : TTTunnel) : SameSetup tn tn := ⟨rfl, rfl, rfl, rfl, rfl, rfl, rfl⟩

theorem SameSetup.trans {tn tn' tn'' : TTTunnel} (h : SameSetup tn tn') (h' : SameSetup tn' tn'') :
    SameSetup tn tn'' :=
  ⟨h'.host.trans h.host, h'.serverHost.trans h.serverHost, h'.udp.trans h.udp, h'.tcp.trans h.tcp,
    h'.allow.trans h.allow, h'.listenSock.trans h.listenSock, h'.socks.trans h.socks⟩

section

variable (C : Crypto) (env : TunnelEnv) {P : TunnelEffect → Prop}

theorem hostForward_emits (P : TunnelEffect → Prop) (tn : TTTunnel) (io : Io) (fn portIdx : ℕ) (data : Bytes)
    (hopen : tn.Allowed fn → portIdx < ttPortListLen tn.udp → ∀ fd srv clock,
      env.resolve clock tn.serverHost (ttPortListPort tn.udp portIdx) = some srv →
        P (.udpOpen fn fd srv) ∧ P (.toServer fn fd srv data))
    (hold : tn.Allowed fn → ∀ fd, (tn.socks (fn * ttTunnelMaxPorts + portIdx)).used = true →
      portIdx < ttPortListLen tn.udp →
        P (.toServer fn fd (tn.socks (fn * ttTunnelMaxPorts + portIdx)).srv data)) :
    io.Emits P (hostForward env io tn fn portIdx data).1 ∧
      ((hostForward env io tn fn portIdx data).2 = tn ∨ tn.Allowed fn ∧ fn < ttMaxFriends ∧
        portIdx < ttPortListLen tn.udp ∧ ∃ fd srv clock,
          env.resolve clock tn.serverHost (ttPortListPort tn.udp portIdx) = some srv ∧
          (hostForward env io tn fn portIdx data).2 =
            tn.setSock (fn * ttTunnelMaxPorts + portIdx) ⟨true, fn, portIdx, some fd, srv⟩) := by
  rw [hostForward]
  by_cases hfn : fn ≥ ttMaxFriends
  · rw [if_pos hfn]
    exact ⟨.refl io, .inl rfl⟩
  rw [if_neg hfn]
  by_cases hA : tn.Allowed fn
  · rw [if_neg (not_not.mpr hA), hostSock]
    by_cases hport : fn ≥ ttMaxFriends ∨ portIdx ≥ ttPortListLen tn.udp
    · rw [if_pos hport]
      exact ⟨.refl io, .inl rfl⟩
    rw [if_neg hport]
    have hlt : portIdx < ttPortListLen tn.udp := by omega
    dsimp only
    by_cases hu : (tn.socks (fn * ttTunnelMaxPorts + portIdx)).used = true
    · rw [if_pos hu]
      dsimp only
      cases (tn.socks (fn * ttTunnelMaxPorts + portIdx)).sock with
      | none => exact ⟨.refl io, .inl rfl⟩
      | some fd => exact ⟨.emit (hold hA fd hu hlt), .inl rfl⟩
    rw [if_neg hu]
    have htwo : io.Emits P io.tick.tick := (Io.Emits.tick io).trans (.tick _)
    cases env.socket io.clock with
    | none => exact ⟨.tick io, .inl rfl⟩
    | some fd =>
      dsimp only
      cases hres : env.resolve io.tick.clock tn.serverHost (ttPortListPort tn.udp portIdx) with
      | none => exact ⟨htwo, .inl rfl⟩
      | some srv =>
        obtain ⟨h1, h2⟩ := hopen hA hlt fd srv _ hres
        have hsrv : ((tn.setSock (fn * ttTunnelMaxPorts + portIdx) ⟨true, fn, portIdx, some fd, srv⟩).socks
            (fn * ttTunnelMaxPorts + portIdx)).srv = srv := by
          simp [TTTunnel.setSock]
        dsimp only
        rw [hsrv]
        exact ⟨(htwo.trans (.emit h1)).trans (.emit h2), .inr ⟨hA, not_le.mp hfn, hlt, fd, srv, _, hres, rfl⟩⟩
  · rw [if_pos hA]
    exact ⟨.refl io, .inl rfl⟩

theorem connLoop_emits (body : Io → TTTunnelConn → Io × TTTunnelConn) (io : Io) (tn : TTTunnel)
    (hbody : ∀ (io : Io) k, io.Emits P (body io (tn.conns k)).1 ∧ Closes (tn.conns k) (body io (tn.conns k)).2) :
    io.Emits P (connLoop body io tn).1 ∧ SameSetup tn (connLoop body io tn).2 ∧
      ∀ k, Closes (tn.conns k) ((connLoop body io tn).2.conns k) := by
  have hrule := Machine.forSlots_rule (P := io.Emits P) (f := fun _ => body)
    (Q := fun k c => c = tn.conns k) (R := fun k c => Closes (tn.conns k) c) (s := io) (t := tn.conns)
    ?_ (.refl io) fun _ => rfl
  · exact ⟨hrule.1, ⟨rfl, rfl, rfl, rfl, rfl, rfl, rfl⟩, hrule.2⟩
  · rintro k io' c hio' rfl
    obtain ⟨hemit, hclose⟩ := hbody io' k
    exact ⟨hio'.trans hemit, hclose⟩

theorem retryLoop_emits (hc : Controls P) (io : Io) (tn : TTTunnel)
    (hP : ∀ k, (tn.conns k).used = true → Carries P (tn.conns k).fn) :
    io.Emits P (connLoop (pollRetryConn C env) io tn).1 ∧ SameSetup tn (connLoop (pollRetryConn C env) io tn).2 ∧
      ∀ k, Closes (tn.conns k) ((connLoop (pollRetryConn C env) io tn).2.conns k) := by
  apply connLoop_emits
  intro io k
  exact ⟨pollRetryConn_emits hc io (hP k), pollRetryConn_closes io _⟩

theorem tunnelPollHost_emits (hc : Controls P) (io : Io) (tn : TTTunnel)
    (hsocks : ∀ j, (tn.socks j).used = true → Carries P (tn.socks j).fn)
    (hP : ∀ k, (tn.conns k).used = true → Carries P (tn.conns k).fn)
    (hw : ∀ k, (tn.conns k).used = true → Writes P (tn.conns k) (tn.conns k).pend) :
    io.Emits P (tunnelPollHost C env io tn).1 ∧ SameSetup tn (tunnelPollHost C env io tn).2 ∧
      ∀ k, Closes (tn.conns k) ((tunnelPollHost C env io tn).2.conns k) := by
  rw [tunnelPollHost]
  have hudp : io.Emits P ((List.range (ttMaxFriends * ttTunnelMaxPorts)).foldl
      (fun io k => pollHostSock C env io (tn.socks k)) io) :=
    .foldl (fun io' j => pollHostSock_emits hc io' (hsocks j)) _ io
  generalize (List.range (ttMaxFriends * ttTunnelMaxPorts)).foldl
    (fun io k => pollHostSock C env io (tn.socks k)) io = io' at hudp ⊢
  have hconn := connLoop_emits (P := P) (pollHostConn C env) io' tn fun io k =>
    ⟨pollHostConn_emits hc io (hP k) (hw k), pollHostConn_closes io _⟩
  obtain ⟨he, hs, hk⟩ := hconn
  split_ifs
  · obtain ⟨he', hs', hk'⟩ := retryLoop_emits C env hc (connLoop (pollHostConn C env) io' tn).1
      (connLoop (pollHostConn C env) io' tn).2 fun k hu => by
        rw [(hk k).fn]
        exact hP k ((hk k).used hu)
    exact ⟨(hudp.trans he).trans he', hs.trans hs', fun k => (hk k).trans (hk' k)⟩
  · exact ⟨hudp.trans he, hs, hk⟩

theorem pollClientPort_emits (hc : Controls P) (hP : ∀ fn, Carries P fn) (io : Io) (tn : TTTunnel) (i : ℕ) :
    io.Emits P (pollClientPort C env io tn i).1 ∧ SameSetup tn (pollClientPort C env io tn i).2 := by
  rw [pollClientPort]
  cases tn.listenSock i with
  | none => exact ⟨.refl io, .refl tn⟩
  | some fd =>
    dsimp only
    cases env.recv io.clock with
    | data b =>
      dsimp only
      have hread : io.Emits P (io.tick.emit (.read tn.peerFn fd (b.take ttTunnelMaxDatagram))) :=
        (Io.Emits.tick io).trans (.emit (hc.read _ _ _))
      have hsent : io.Emits P (tunnelSend C env (io.tick.emit (.read tn.peerFn fd (b.take ttTunnelMaxDatagram)))
          tn.peerFn i (b.take ttTunnelMaxDatagram)) := hread.trans (tunnelSend_emits hc _ i _ (hP tn.peerFn))
      by_cases hb : b.take ttTunnelMaxDatagram = []
      · rw [if_pos hb]
        exact ⟨.tick io, .refl tn⟩
      · rw [if_neg hb]
        refine ⟨hsent, ?_⟩
        split_ifs
        · exact .refl tn
        · exact ⟨rfl, rfl, rfl, rfl, rfl, rfl, rfl⟩
    | again => exact ⟨.tick io, .refl tn⟩
    | error => exact ⟨.tick io, .refl tn⟩

theorem acceptTurn_emits (hc : Controls P) (io : Io) (tn : TTTunnel) (i : ℕ) :
    io.Emits P (acceptTurn C env io tn i).1 ∧ SameSetup tn (acceptTurn C env io tn i).2.1 := by
  rw [acceptTurn]
  cases env.accept io.clock with
  | none => exact ⟨.tick io, .refl tn⟩
  | some fd =>
    dsimp only
    cases tn.connFreeSlot with
    | none => exact ⟨.tick io, .refl tn⟩
    | some k =>
      exact ⟨(Io.Emits.tick io).trans (tcpSend_emits hc _ fun h => by cases h), rfl, rfl, rfl, rfl, rfl, rfl, rfl⟩

theorem acceptLoop_emits (hc : Controls P) (n : ℕ) (io : Io) (tn : TTTunnel) (i : ℕ) :
    io.Emits P (acceptLoop C env n io tn i).1 ∧ SameSetup tn (acceptLoop C env n io tn i).2 := by
  induction n generalizing io tn with
  | zero => exact ⟨.refl io, .refl tn⟩
  | succ n ih =>
    obtain ⟨he, hs⟩ := acceptTurn_emits C env hc io tn i
    rw [acceptLoop]
    split_ifs
    · obtain ⟨he', hs'⟩ := ih (acceptTurn C env io tn i).1 (acceptTurn C env io tn i).2.1
      exact ⟨he.trans he', hs.trans hs'⟩
    · exact ⟨he, hs⟩

theorem pollClientAccept_emits (hc : Controls P) (io : Io) (tn : TTTunnel) (i : ℕ) :
    io.Emits P (pollClientAccept C env io tn i).1 ∧ SameSetup tn (pollClientAccept C env io tn i).2 := by
  rw [pollClientAccept]
  cases tn.tcpListenSock i with
  | none => exact ⟨.refl io, .refl tn⟩
  | some fd => exact acceptLoop_emits C env hc _ io tn i

theorem portLoop_emits {f : Io → TTTunnel → ℕ → Io × TTTunnel}
    (hf : ∀ (io : Io) tn i, io.Emits P (f io tn i).1 ∧ SameSetup tn (f io tn i).2) (l : List ℕ) (w : Io × TTTunnel) :
    w.1.Emits P (l.foldl (fun w i => f w.1 w.2 i) w).1 ∧ SameSetup w.2 (l.foldl (fun w i => f w.1 w.2 i) w).2 := by
  induction l generalizing w with
  | nil => exact ⟨.refl w.1, .refl w.2⟩
  | cons i l ih =>
    obtain ⟨he, hs⟩ := hf w.1 w.2 i
    obtain ⟨he', hs'⟩ := ih (f w.1 w.2 i)
    exact ⟨he.trans he', hs.trans hs'⟩

theorem tunnelPollClient_emits (hc : Controls P) (hP : ∀ fn, Carries P fn) (io : Io) (tn : TTTunnel) :
    io.Emits P (tunnelPollClient C env io tn).1 ∧ SameSetup tn (tunnelPollClient C env io tn).2 := by
  have hports (w : Io × TTTunnel) := portLoop_emits (P := P) (f := pollClientPort C env)
    (pollClientPort_emits C env hc hP) (List.range (ttPortListLen tn.udpLocal)) w
  have haccepts (w : Io × TTTunnel) (n : ℕ) := portLoop_emits (P := P) (f := pollClientAccept C env)
    (pollClientAccept_emits C env hc) (List.range n) w
  have hserve (io : Io) (tn : TTTunnel) := connLoop_emits (P := P) (pollServe C env) io tn fun io k =>
    ⟨pollServe_emits hc io fun _ => hP _, pollServe_closes io _⟩
  have hretry (io : Io) (tn : TTTunnel) := retryLoop_emits C env hc io tn fun k _ => hP _
  have hudp : io.Emits P (if tn.peerFn = noFriend then (io, tn)
      else (List.range (ttPortListLen tn.udpLocal)).foldl (fun p i => pollClientPort C env p.1 p.2 i) (io, tn)).1 ∧
      SameSetup tn (if tn.peerFn = noFriend then (io, tn)
      else (List.range (ttPortListLen tn.udpLocal)).foldl (fun p i => pollClientPort C env p.1 p.2 i) (io, tn)).2 := by
    split_ifs
    · exact ⟨.refl io, .refl tn⟩
    · exact hports (io, tn)
  rw [tunnelPollClient]
  generalize (if tn.peerFn = noFriend then (io, tn)
    else (List.range (ttPortListLen tn.udpLocal)).foldl (fun p i => pollClientPort C env p.1 p.2 i) (io, tn)) = w at hudp ⊢
  obtain ⟨he, hs⟩ := hudp
  obtain ⟨he', hs'⟩ := haccepts w (ttPortListLen tn.tcpLocal)
  generalize (List.range (ttPortListLen tn.tcpLocal)).foldl (fun p i => pollClientAccept C env p.1 p.2 i) w = w'
    at he' hs' ⊢
  obtain ⟨he1, hs1, -⟩ := hserve w'.1 w'.2
  obtain ⟨he2, hs2, -⟩ := hretry (connLoop (pollServe C env) w'.1 w'.2).1 (connLoop (pollServe C env) w'.1 w'.2).2
  exact ⟨((he.trans he').trans he1).trans he2, ((hs.trans hs').trans hs1).trans hs2⟩

theorem tunnelResolve_same (tn : TTTunnel) :
    SameSetup tn (tunnelResolve env tn) ∧ (tunnelResolve env tn).conns = tn.conns := by
  rw [tunnelResolve]
  split_ifs
  · exact ⟨.refl tn, rfl⟩
  · cases env.friendByPk tn.peerPk with
    | none => exact ⟨.refl tn, rfl⟩
    | some fn => exact ⟨⟨rfl, rfl, rfl, rfl, rfl, rfl, rfl⟩, rfl⟩

theorem tunnelPoll_emits {tn : TTTunnel} (hc : Controls P) (io : Io) {R : TTTunnel → Prop}
    (hbody : ∀ io tn', SameSetup tn tn' → tn'.conns = tn.conns →
      Io.Emits P io (if tn'.host then tunnelPollHost C env io tn' else tunnelPollClient C env io tn').1 ∧
        R (if tn'.host then tunnelPollHost C env io tn' else tunnelPollClient C env io tn').2)
    (hR : R tn) : io.Emits P (tunnelPoll C env io tn).1 ∧ ∀ tn' ∈ (tunnelPoll C env io tn).2, R tn' := by
  rw [tunnelPoll]
  by_cases hdrop : tn.pending = true ∧ tn.host = true ∧ tn.pendingSince ≠ 0 ∧
      env.now io.clock - tn.pendingSince ≥ ttTunnelPendingTimeout
  · rw [if_pos hdrop]
    exact ⟨.refl io, by simp⟩
  rw [if_neg hdrop]
  by_cases hpend : tn.pending = true
  · rw [if_pos hpend]
    refine ⟨.refl io, ?_⟩
    rintro tn' ⟨⟩
    exact hR
  rw [if_neg hpend]
  have hkick : io.Emits P (tunnelKick C env io (tunnelResolve env tn).peerFn) := tunnelKick_emits hc io _
  obtain ⟨hs, hconns⟩ := tunnelResolve_same env tn
  obtain ⟨he, hr⟩ := hbody (tunnelKick C env io (tunnelResolve env tn).peerFn) _ hs hconns
  dsimp only
  generalize (if (tunnelResolve env tn).host = true
    then tunnelPollHost C env (tunnelKick C env io (tunnelResolve env tn).peerFn) (tunnelResolve env tn)
    else tunnelPollClient C env (tunnelKick C env io (tunnelResolve env tn).peerFn) (tunnelResolve env tn)) = r at he hr ⊢
  split_ifs
  · refine ⟨hkick.trans he, ?_⟩
    rintro tn' ⟨⟩
    exact hr
  · refine ⟨(hkick.trans he).trans (tunnelCarrierRetry_emits hc _ _), ?_⟩
    rintro tn' ⟨⟩
    exact hr

end

end TkTox
