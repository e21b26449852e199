import TkTox.PollEffects

/-!
Whose traffic a turn of a host tunnel relays: that of friends in the allowlist, as long as whoever
has a socket or a connection is in it.
-/

namespace TkTox

def TunnelEffect.relayed : TunnelEffect → Option ℕ
  | .lossless fn _ (some f) => if f.op = .data then some fn else none
  | .lossy fn _ _ _ => some fn
  | .connect fn _ _ => some fn
  | .udpOpen fn _ _ => some fn
  | .toServer fn _ _ _ => some fn
  | .wrote fn _ _ _ => some fn
  | _ => none

def Io.RelaysFor (A : ℕ → Prop) (io io' : Io) : Prop :=
  ∃ l, io'.log = io.log ++ l ∧ ∀ e ∈ l, ∀ fn, e.2.relayed = some fn → A fn

namespace Io.RelaysFor

variable {A B : ℕ → Prop} {io io' io'' : Io}

theorem of_log (h : io'.log = io.log) : io.RelaysFor A io' := ⟨[], by rw [h, List.append_nil], by simp⟩

theorem refl (io : Io) : io.RelaysFor A io := of_log rfl

theorem trans (h : io.RelaysFor A io') (h' : io'.RelaysFor A io'') : io.RelaysFor A io'' := by
  obtain ⟨l, hl, ha⟩ := h
  obtain ⟨l', hl', ha'⟩ := h'
  refine ⟨l ++ l', by rw [hl', hl, List.append_assoc], ?_⟩
  intro e he
  obtain he | he := List.mem_append.mp he
  · exact ha e he
  · exact ha' e he

theorem mono (hAB : ∀ fn, A fn → B fn) (h : io.RelaysFor A io') : io.RelaysFor B io' := by
  obtain ⟨l, hl, ha⟩ := h
  exact ⟨l, hl, fun e he fn hf => hAB fn (ha e he fn hf)⟩

end Io.RelaysFor

def RelayedIn (A : ℕ → Prop) (e : TunnelEffect) : Prop := ∀ fn, e.relayed = some fn → A fn

section

variable {A : ℕ → Prop}

theorem Io.Emits.relaysFor {io io' : Io} (h : io.Emits (RelayedIn A) io') : io.RelaysFor A io' := by
  obtain ⟨l, hl, hA⟩ := h
  refine ⟨_, hl.log_eq, ?_⟩
  intro e he
  obtain ⟨e', he', rfl⟩ := List.mem_map.mp he
  exact hA e' he'

theorem relayedIn_controls (A : ℕ → Prop) : Controls (RelayedIn A) where
  bare _ _ _ h := by cases h
  control fn pkt f hop fn' h := by
    rw [TunnelEffect.relayed, if_neg hop] at h
    cases h
  refused _ _ _ h := by cases h
  read _ _ _ _ h := by cases h

theorem relayedIn_of {e : TunnelEffect} {fn : ℕ} (hA : A fn) (he : ∀ fn', e.relayed = some fn' → fn' = fn) :
    RelayedIn A e := by
  intro fn' h
  rw [he fn' h]
  exact hA

theorem relayedIn_carries {fn : ℕ} (hA : A fn) : Carries (RelayedIn A) fn where
  data pkt f := by
    apply relayedIn_of hA
    intro fn' h
    rw [TunnelEffect.relayed] at h
    split_ifs at h
    exact (Option.some.inj h).symm
  lossy pkt portIdx b := relayedIn_of hA fun fn' h => (Option.some.inj h).symm

theorem relayedIn_writes {c : TTTunnelConn} (hA : A c.fn) (b : Bytes) : Writes (RelayedIn A) c b :=
  fun _ _ _ => relayedIn_of hA fun _ h => (Option.some.inj h).symm

end

structure Guarded (env : TunnelEnv) (tn : TTTunnel) : Prop where
  host : tn.host = true
  socks : ∀ j, (tn.socks j).used = true → tn.Allowed (tn.socks j).fn ∧ (tn.socks j).fn < ttMaxFriends
  conns : ∀ k, (tn.conns k).used = true → tn.Allowed (tn.conns k).fn
  known : ∀ k, (tn.allow k).used = true → (tn.allow k).fn ≠ noFriend →
    env.friendByPk (tn.allow k).pk = some (tn.allow k).fn
  distinct : ∀ k k', (tn.allow k).used = true → (tn.allow k').used = true →
    (tn.allow k).pk = (tn.allow k').pk → k = k'

structure HostTurn (io : Io) (tn : TTTunnel) (r : Io × TTTunnel) : Prop where
  relays : io.RelaysFor tn.Allowed r.1
  host : r.2.host = tn.host
  allow : r.2.allow = tn.allow
  socks : ∀ j, (r.2.socks j).used = true → tn.Allowed (r.2.socks j).fn ∧ (r.2.socks j).fn < ttMaxFriends
  conns : ∀ k, (r.2.conns k).used = true → tn.Allowed (r.2.conns k).fn

section

variable {C : Crypto} {env : TunnelEnv} {io : Io} {tn : TTTunnel}

theorem HostTurn.guarded {r : Io × TTTunnel} (h : HostTurn io tn r) (hg : Guarded env tn) :
    Guarded env r.2 := by
  have hallowed (fn : ℕ) : r.2.Allowed fn ↔ tn.Allowed fn := by
    rw [TTTunnel.Allowed, TTTunnel.Allowed, h.allow]
  constructor
  · rw [h.host]
    exact hg.host
  · intro j hj
    rw [hallowed]
    exact h.socks j hj
  · intro k hk
    rw [hallowed]
    exact h.conns k hk
  · rw [h.allow]
    exact hg.known
  · rw [h.allow]
    exact hg.distinct

theorem Guarded.turn (hg : Guarded env tn) {io' : Io} (h : io.RelaysFor tn.Allowed io') :
    HostTurn io tn (io', tn) := ⟨h, rfl, rfl, hg.socks, hg.conns⟩

theorem Guarded.setConn (hg : Guarded env tn) {io' : Io} {c : TTTunnelConn} (k : Fin ttTunnelMaxConns)
    (h : io.RelaysFor tn.Allowed io') (hc : c.used = true → tn.Allowed c.fn) :
    HostTurn io tn (io', tn.setConn k c) := by
  refine ⟨h, rfl, rfl, hg.socks, ?_⟩
  intro k'
  by_cases hk : k' = k
  · subst hk
    simpa [TTTunnel.setConn] using hc
  · simpa [TTTunnel.setConn, hk] using hg.conns k'

theorem hostForward_turn (hg : Guarded env tn) (io : Io) (fn portIdx : ℕ) (data : Bytes) :
    HostTurn io tn (hostForward env io tn fn portIdx data) := by
  have hsend (hA : tn.Allowed fn) (fd srv : ℕ) : RelayedIn tn.Allowed (.toServer fn fd srv data) :=
    relayedIn_of hA fun _ h => (Option.some.inj h).symm
  obtain ⟨hemit, htn⟩ := hostForward_emits env (RelayedIn tn.Allowed) tn io fn portIdx data
    (fun hA _ fd srv _ _ => ⟨relayedIn_of hA fun _ h => (Option.some.inj h).symm, hsend hA fd srv⟩)
    fun hA fd _ _ => hsend hA fd _
  generalize hostForward env io tn fn portIdx data = r at hemit htn ⊢
  obtain ⟨io', tn'⟩ := r
  obtain rfl | ⟨hA, hfn, -, fd, srv, clock, -, rfl⟩ := htn
  · exact hg.turn hemit.relaysFor
  · refine ⟨hemit.relaysFor, rfl, rfl, ?_, hg.conns⟩
    intro j hj
    by_cases he : j = fn * ttTunnelMaxPorts + portIdx
    · simp only [TTTunnel.setSock, he, Function.update_self]
      exact ⟨hA, hfn⟩
    · simp only [TTTunnel.setSock, Function.update_of_ne he] at hj ⊢
      exact hg.socks j hj

theorem connFind_matches {fn connid : ℕ} {k : Fin ttTunnelMaxConns} (h : tn.connFind fn connid = some k) :
    (tn.conns k).Matches fn connid := by
  have hmatch := List.find?_some h
  exact of_decide_eq_true hmatch

theorem rxHostConn_turn (hg : Guarded env tn) (io : Io) (op : TTTcpOp) (payload : Bytes) {fn connid : ℕ}
    {k : Fin ttTunnelMaxConns} (hf : tn.connFind fn connid = some k) :
    HostTurn io tn ((rxHostConn C env io (tn.conns k) op payload).1,
      tn.setConn k (rxHostConn C env io (tn.conns k) op payload).2) := by
  have hA := hg.conns k (connFind_matches hf).1
  have hemit := rxHostConn_emits C env (relayedIn_controls tn.Allowed) io op payload
    fun _ => relayedIn_writes hA payload
  apply hg.setConn k hemit.relaysFor
  intro _
  rw [(rxHostConn_closes C env io (tn.conns k) op payload).fn]
  exact hA

theorem hostOpenConn_turn (hg : Guarded env tn) (io : Io) (fn portIdx connid : ℕ)
    (hopen : tn.connFind fn connid = none → tn.connFreeSlot ≠ none → tn.Allowed fn) :
    HostTurn io tn (hostOpenConn C env io tn fn portIdx connid) := by
  have hc := relayedIn_controls tn.Allowed
  rw [hostOpenConn]
  cases hf : tn.connFind fn connid with
  | some k => exact hg.turn (.refl io)
  | none =>
    dsimp only
    cases hk : tn.connFreeSlot with
    | none =>
      have hfail : io.Emits (RelayedIn tn.Allowed) (tcpSend C env io fn ⟨portIdx, connid, .openFail, []⟩) :=
        tcpSend_emits hc io fun h => by cases h
      exact hg.turn hfail.relaysFor
    | some k =>
      have hA : tn.Allowed fn := hopen hf (by rw [hk]; exact Option.some_ne_none k)
      obtain ⟨hemit, hfn, -⟩ := hostOpenSlot_emits C env hc tn.tcp tn.serverHost io (tn.conns k)
        fn portIdx connid fun s addr _ _ _ =>
          relayedIn_of (e := .connect fn s addr) hA fun _ h => (Option.some.inj h).symm
      apply hg.setConn k hemit.relaysFor
      intro _
      rw [hfn]
      exact hA

theorem tunnelTcpRxHost_turn (hg : Guarded env tn) (io : Io) (fn : ℕ) (h : TcpHead)
    (hopen : TTTcpOp.ofByte h.opcode = some .open → tn.connFind fn h.connid = none →
      tn.connFreeSlot ≠ none → tn.Allowed fn) : HostTurn io tn (tunnelTcpRxHost C env io tn fn h) := by
  rw [tunnelTcpRxHost]
  cases hop : TTTcpOp.ofByte h.opcode with
  | none => exact hg.turn (.refl io)
  | some op =>
    cases hf : tn.connFind fn h.connid with
    | none =>
      cases op with
      | «open» => exact hostOpenConn_turn hg io fn h.portIdx h.connid fun _ => hopen hop hf
      | _ => exact hg.turn (.refl io)
    | some k =>
      cases op with
      | «open» =>
        apply hostOpenConn_turn hg io fn h.portIdx h.connid
        intro hnone
        rw [hf] at hnone
        cases hnone
      | _ => exact rxHostConn_turn hg io _ h.payload hf
theorem tunnelPollHost_turn (hg : Guarded env tn) (io : Io) :
    io.Emits (RelayedIn tn.Allowed) (tunnelPollHost C env io tn).1 ∧
      HostTurn io tn (tunnelPollHost C env io tn) := by
  obtain ⟨hemit, hsame, hclose⟩ := tunnelPollHost_emits C env (relayedIn_controls tn.Allowed) io tn
    (fun j hj => relayedIn_carries (hg.socks j hj).1) (fun k hk => relayedIn_carries (hg.conns k hk))
    fun k hk => relayedIn_writes (hg.conns k hk) _
  refine ⟨hemit, hemit.relaysFor, hsame.host, hsame.allow, ?_, ?_⟩
  · rw [hsame.socks]
    exact hg.socks
  · intro k hk
    rw [(hclose k).fn]
    exact hg.conns k ((hclose k).used hk)

theorem tunnelPoll_turn (hg : Guarded env tn) (io : Io) :
    io.RelaysFor tn.Allowed (tunnelPoll C env io tn).1 ∧
      ∀ tn' ∈ (tunnelPoll C env io tn).2, Guarded env tn' ∧ tn'.allow = tn.allow := by
  have hbody (io' : Io) (tn' : TTTunnel) (hs : SameSetup tn tn') (hconns : tn'.conns = tn.conns) :
      io'.Emits (RelayedIn tn.Allowed) (tunnelPollHost C env io' tn').1 ∧ tn'.host = true ∧
        Guarded env (tunnelPollHost C env io' tn').2 ∧ (tunnelPollHost C env io' tn').2.allow = tn.allow := by
    have hturn : HostTurn io tn (io, tn') := by
      refine ⟨.refl io, hs.host, hs.allow, ?_, ?_⟩
      · rw [hs.socks]
        exact hg.socks
      · rw [hconns]
        exact hg.conns
    have hg' : Guarded env tn' := hturn.guarded hg
    have hA : tn'.Allowed = tn.Allowed := by
      funext fn
      rw [TTTunnel.Allowed, TTTunnel.Allowed, hs.allow]
    obtain ⟨hemit, hpoll⟩ := tunnelPollHost_turn (C := C) hg' io'
    rw [hA] at hemit
    exact ⟨hemit, hg'.host, hpoll.guarded hg', hpoll.allow.trans hs.allow⟩
  obtain ⟨hemit, hr⟩ := tunnelPoll_emits C env (relayedIn_controls tn.Allowed) io
    (R := fun tn' => Guarded env tn' ∧ tn'.allow = tn.allow) (fun io' tn' hs hconns => by
      obtain ⟨he, hh, hr⟩ := hbody io' tn' hs hconns
      rw [if_pos hh]
      exact ⟨he, hr⟩) ⟨hg, rfl⟩
  exact ⟨hemit.relaysFor, hr⟩

end

end TkTox
