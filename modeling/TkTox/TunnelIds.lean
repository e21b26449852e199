import TkTox.Instance
import TkTox.Tunnel

/-!
The connection ids of a client tunnel. The counter that numbers the local connections wraps and
never looks at the slots, so whether an id names one connection depends on how long a slot stays
open. A run is cut into the turns of the loops a poll consists of.
-/

namespace TkTox

inductive ClientOp
  | udp (i : ℕ)
  | accept (i : ℕ)
  | serve (k : Fin ttTunnelMaxConns)
  | retry (k : Fin ttTunnelMaxConns)
  | rx (fn : ℕ) (h : TcpHead)
  | resolve
  -- sessions, clock and log are shared with the other tunnels
  | elsewhere (io : Io)

section

variable (C : Crypto) (env : TunnelEnv)

def slotTurn (body : Io → TTTunnelConn → Io × TTTunnelConn) (io : Io) (tn : TTTunnel)
    (k : Fin ttTunnelMaxConns) : Io × TTTunnel :=
  ((body io (tn.conns k)).1, tn.setConn k (body io (tn.conns k)).2)

def clientStep (w : Io × TTTunnel) : ClientOp → Io × TTTunnel
  | .udp i => pollClientPort C env w.1 w.2 i
  | .accept i => ((acceptTurn C env w.1 w.2 i).1, (acceptTurn C env w.1 w.2 i).2.1)
  | .serve k => slotTurn (pollServe C env) w.1 w.2 k
  | .retry k => slotTurn (pollRetryConn C env) w.1 w.2 k
  | .rx fn h => if fn = w.2.peerFn then tunnelTcpRxClient C env w.1 w.2 fn h else w
  | .resolve => (w.1, tunnelResolve env w.2)
  | .elsewhere io => (io, w.2)

def Turns (w w' : Io × TTTunnel) : Prop := ∃ ops : List ClientOp, w' = ops.foldl (clientStep C env) w

end

variable {C : Crypto} {env : TunnelEnv} {w w' w'' : Io × TTTunnel}

theorem Turns.refl (w : Io × TTTunnel) : Turns C env w w := ⟨[], rfl⟩

theorem Turns.trans (h : Turns C env w w') (h' : Turns C env w' w'') : Turns C env w w'' := by
  obtain ⟨ops, rfl⟩ := h
  obtain ⟨ops', rfl⟩ := h'
  exact ⟨ops ++ ops', by rw [List.foldl_append]⟩

theorem Turns.single (op : ClientOp) : Turns C env w (clientStep C env w op) := ⟨[op], rfl⟩

theorem Turns.foldl {β : Type} {f : Io × TTTunnel → β → Io × TTTunnel}
    (hf : ∀ w b, Turns C env w (f w b)) (l : List β) : Turns C env w (l.foldl f w) := by
  induction l generalizing w with
  | nil => exact .refl w
  | cons b l ih => exact (hf w b).trans ih

theorem connLoop_turns {body : Io → TTTunnelConn → Io × TTTunnelConn}
    (hbody : ∀ io tn k, Turns C env (io, tn) (slotTurn body io tn k)) (io : Io) (tn : TTTunnel) :
    Turns C env (io, tn) (connLoop body io tn) := by
  have hfold : ∀ (l : List (Fin ttTunnelMaxConns)) (io : Io) (conns : Fin ttTunnelMaxConns → TTTunnelConn),
      Turns C env (io, { tn with conns := conns })
        ((l.foldl (Machine.visit fun _ => body) (io, conns)).1,
          { tn with conns := (l.foldl (Machine.visit fun _ => body) (io, conns)).2 }) := by
    intro l
    induction l with
    | nil =>
      intro io conns
      exact .refl _
    | cons k l ih =>
      intro io conns
      have hk := hbody io { tn with conns := conns } k
      exact hk.trans (ih _ _)
  exact hfold _ io tn.conns

theorem acceptLoop_turns (n : ℕ) (io : Io) (tn : TTTunnel) (i : ℕ) :
    Turns C env (io, tn) (acceptLoop C env n io tn i) := by
  induction n generalizing io tn with
  | zero => exact .refl _
  | succ n ih =>
    have hturn : Turns C env (io, tn) ((acceptTurn C env io tn i).1, (acceptTurn C env io tn i).2.1) :=
      .single (.accept i)
    rw [acceptLoop]
    split_ifs
    · exact hturn.trans (ih _ _)
    · exact hturn

def freeSlots (tn : TTTunnel) : ℕ :=
  (Finset.univ.filter fun k => (tn.conns k).used = false).card

theorem connFreeSlot_unused {tn : TTTunnel} {k : Fin ttTunnelMaxConns}
    (h : tn.connFreeSlot = some k) : (tn.conns k).used = false := by
  have hfree := List.find?_some h
  exact of_decide_eq_true hfree

theorem tunnelAccept_freeSlots (C : Crypto) (env : TunnelEnv) (io : Io) {tn : TTTunnel} (i fd : ℕ) {k : Fin ttTunnelMaxConns}
    (hk : (tn.conns k).used = false) :
    freeSlots (tunnelAccept C env io tn i fd k).2 < freeSlots tn := by
  apply Finset.card_lt_card
  rw [Finset.ssubset_iff_of_subset]
  · refine ⟨k, by simpa using hk, ?_⟩
    simp [tunnelAccept, TTTunnel.setConn, connAlloc]
  · intro k' hk'
    rw [Finset.mem_filter] at hk' ⊢
    refine ⟨Finset.mem_univ k', ?_⟩
    by_cases he : k' = k
    · rw [he]
      exact hk
    · simpa [tunnelAccept, TTTunnel.setConn, he] using hk'.2

theorem acceptLoop_fuel (n m : ℕ) (io : Io) (tn : TTTunnel) (i : ℕ) (hn : freeSlots tn < n) :
    acceptLoop C env (n + m) io tn i = acceptLoop C env n io tn i := by
  induction n generalizing io tn with
  | zero => exact absurd hn (Nat.not_lt_zero _)
  | succ n ih =>
    rw [Nat.succ_add, acceptLoop, acceptLoop, acceptTurn]
    cases env.accept io.clock with
    | none => rfl
    | some fd =>
      cases hk : tn.connFreeSlot with
      | none => rfl
      | some k =>
        have hless := tunnelAccept_freeSlots C env io.tick i fd (connFreeSlot_unused hk)
        exact ih _ _ (lt_of_lt_of_le hless (Nat.le_of_lt_succ hn))

theorem tunnelPollClient_turns (io : Io) (tn : TTTunnel) :
    Turns C env (io, tn) (tunnelPollClient C env io tn) := by
  have hudp : Turns C env (io, tn) (if tn.peerFn = noFriend then (io, tn)
      else (List.range (ttPortListLen tn.udpLocal)).foldl
        (fun p i => pollClientPort C env p.1 p.2 i) (io, tn)) := by
    split_ifs
    · exact .refl _
    · apply Turns.foldl
      intro w i
      exact .single (.udp i)
  have haccept : ∀ w : Io × TTTunnel, Turns C env w
      ((List.range (ttPortListLen tn.tcpLocal)).foldl (fun p i => pollClientAccept C env p.1 p.2 i) w) := by
    intro w
    apply Turns.foldl
    intro w i
    rw [pollClientAccept]
    cases w.2.tcpListenSock i with
    | none => exact .refl _
    | some _ => exact acceptLoop_turns _ _ _ _
  apply (hudp.trans (haccept _)).trans
  apply (connLoop_turns (fun io tn k => .single (.serve k)) _ _).trans
  exact connLoop_turns (fun io tn k => .single (.retry k)) _ _

theorem tunnelPoll_turns {io : Io} {tn tn' : TTTunnel} (hh : tn.host = false) (hp : tn.pending = false)
    (h : (tunnelPoll C env io tn).2 = some tn') :
    Turns C env (io, tn) ((tunnelPoll C env io tn).1, tn') := by
  have hnone : ¬ (tn.pending = true ∧ tn.host = true ∧ tn.pendingSince ≠ 0 ∧
      env.now io.clock - tn.pendingSince ≥ ttTunnelPendingTimeout) := by
    rw [hp]
    rintro ⟨hpend, -⟩
    cases hpend
  have hhost : (tunnelResolve env tn).host = false := by
    rw [tunnelResolve]
    split_ifs
    · exact hh
    · cases env.friendByPk tn.peerPk <;> exact hh
  have hresolve : Turns C env (io, tn) (io, tunnelResolve env tn) := .single .resolve
  have hpoll := (hresolve.trans (.single (.elsewhere
    (tunnelKick C env io (tunnelResolve env tn).peerFn)))).trans (tunnelPollClient_turns _ _)
  rw [tunnelPoll, if_neg hnone, if_neg (by rw [hp]; exact Bool.false_ne_true)] at h ⊢
  simp only [hhost, Bool.false_eq_true, ↓reduceIte] at h ⊢
  generalize tunnelPollClient C env (tunnelKick C env io (tunnelResolve env tn).peerFn)
    (tunnelResolve env tn) = r at h hpoll ⊢
  by_cases hf : r.2.peerFn = noFriend
  · rw [if_pos hf] at h ⊢
    obtain rfl := Option.some.inj h
    exact hpoll
  · rw [if_neg hf] at h ⊢
    obtain rfl := Option.some.inj h
    exact hpoll.trans (.single (.elsewhere _))

theorem tunnelRxTcp_turns (fn : ℕ) (h : TcpHead) (io : Io) {tn : TTTunnel} (hh : tn.host = false) :
    Turns C env (io, tn) (tunnelRxTcp C env fn h io tn) := by
  rw [tunnelRxTcp, hh, if_neg Bool.false_ne_true]
  split_ifs with hp hf
  · exact .refl _
  · have hstep : Turns C env (io, tn) (clientStep C env (io, tn) (.rx fn h)) := .single (.rx fn h)
    rwa [clientStep, if_pos hf] at hstep
  · exact .refl _

structure Closes (c c' : TTTunnelConn) : Prop where
  used : c'.used = true → c.used = true
  fn : c'.fn = c.fn
  portIdx : c'.portIdx = c.portIdx
  connid : c'.connid = c.connid
  sock : ∀ fd, c'.sock = some fd → c.sock = some fd

theorem Closes.refl (c : TTTunnelConn) : Closes c c := ⟨id, rfl, rfl, rfl, fun _ h => h⟩

theorem Closes.trans {c c' c'' : TTTunnelConn} (h : Closes c c') (h' : Closes c' c'') : Closes c c'' :=
  ⟨fun hu => h.used (h'.used hu), h'.fn.trans h.fn, h'.portIdx.trans h.portIdx, h'.connid.trans h.connid,
    fun fd hs => h.sock fd (h'.sock fd hs)⟩

theorem SameSlot.closes {c c' : TTTunnelConn} (h : SameSlot c c') : Closes c c' :=
  ⟨fun hu => h.used ▸ hu, h.fn, h.portIdx, h.connid, fun _ hs => h.sock ▸ hs⟩

theorem connFree_closes (c : TTTunnelConn) : Closes c (connFree c) :=
  ⟨fun hu => Bool.noConfusion hu, rfl, rfl, rfl, fun fd hs => (by cases hs)⟩

theorem connService_closes (io : Io) (c : TTTunnelConn) : Closes c (connService C env io c).2 := by
  obtain ⟨l, b, -, hrun, -⟩ := connDrainOut_live C env io c (False.elim : False → _)
  have hclose := hrun.sameSlot.closes
  rw [connService]
  split_ifs
  · exact hclose
  · exact hclose.trans (connFree_closes _)

theorem pollServe_closes (io : Io) (c : TTTunnelConn) : Closes c (pollServe C env io c).2 := by
  rw [pollServe]
  split_ifs
  · exact connService_closes io c
  · exact .refl c

theorem pollRetryConn_closes (io : Io) (c : TTTunnelConn) :
    Closes c (pollRetryConn C env io c).2 := by
  rw [pollRetryConn]
  split_ifs
  · exact connService_closes io c
  · exact .refl c

theorem connReturnCredit_closes (io : Io) (c : TTTunnelConn) :
    Closes c (connReturnCredit C env io c).2 := by
  rw [connReturnCredit]
  split_ifs <;> exact ⟨id, rfl, rfl, rfl, fun _ hs => hs⟩

theorem connTakeCredit_closes (c : TTTunnelConn) (payload : Bytes) :
    Closes c (connTakeCredit c payload) := by
  rw [connTakeCredit]
  split_ifs
  · exact ⟨fun hu => Bool.noConfusion hu, rfl, rfl, rfl, fun fd hs => (by cases hs)⟩
  · exact ⟨id, rfl, rfl, rfl, fun _ hs => hs⟩

theorem connMarkPeerGone_closes (c : TTTunnelConn) : Closes c (connMarkPeerGone c) := by
  rw [connMarkPeerGone]
  split_ifs
  · exact connFree_closes c
  · exact ⟨id, rfl, rfl, rfl, fun fd hs => (by cases hs)⟩

theorem rxClientConn_closes (io : Io) (c : TTTunnelConn) (op : TTTcpOp) (payload : Bytes) :
    Closes c (rxClientConn C env io c op payload).2 := by
  cases op with
  | «open» => exact .refl c
  | openAck => exact .refl c
  | openFail => exact connFree_closes c
  | data =>
    rw [rxClientConn]
    split_ifs
    · exact connReturnCredit_closes _ c
    · exact .refl c
  | fin => exact connMarkPeerGone_closes c
  | ack => exact connTakeCredit_closes c payload

structure OnlyCloses (tn tn' : TTTunnel) : Prop where
  conns : ∀ k, Closes (tn.conns k) (tn'.conns k)
  next : tn'.nextConnid = tn.nextConnid

theorem OnlyCloses.of_eq {tn tn' : TTTunnel} (hc : tn'.conns = tn.conns)
    (hn : tn'.nextConnid = tn.nextConnid) : OnlyCloses tn tn' := by
  refine ⟨?_, hn⟩
  intro k
  rw [hc]
  exact .refl _

theorem OnlyCloses.setConn {tn : TTTunnel} {k : Fin ttTunnelMaxConns} {c : TTTunnelConn}
    (h : Closes (tn.conns k) c) : OnlyCloses tn (tn.setConn k c) := by
  refine ⟨?_, rfl⟩
  intro k'
  by_cases hk : k' = k
  · subst hk
    simpa [TTTunnel.setConn] using h
  · simpa [TTTunnel.setConn, hk] using Closes.refl (tn.conns k')

theorem clientStep_cases (C : Crypto) (env : TunnelEnv) (w : Io × TTTunnel) (op : ClientOp) :
    (∃ i fd k, op = .accept i ∧ env.accept w.1.clock = some fd ∧ w.2.connFreeSlot = some k ∧
      (clientStep C env w op).2 = (tunnelAccept C env w.1.tick w.2 i fd k).2) ∨
    ((∀ i, op = .accept i → env.accept w.1.clock = none ∨ w.2.connFreeSlot = none) ∧
      OnlyCloses w.2 (clientStep C env w op).2) := by
  cases op with
  | accept i =>
    rw [clientStep, acceptTurn]
    cases ha : env.accept w.1.clock with
    | none => exact Or.inr ⟨fun _ _ => Or.inl rfl, .of_eq rfl rfl⟩
    | some fd =>
      cases hk : w.2.connFreeSlot with
      | none => exact Or.inr ⟨fun _ _ => Or.inr rfl, .of_eq rfl rfl⟩
      | some k => exact Or.inl ⟨i, fd, k, rfl, rfl, rfl, rfl⟩
  | udp i =>
    refine Or.inr ⟨fun _ h => (by cases h), ?_⟩
    rw [clientStep, pollClientPort]
    cases w.2.listenSock i with
    | none => exact .of_eq rfl rfl
    | some fd =>
      cases env.recv w.1.clock with
      | data b =>
        dsimp only
        split_ifs <;> exact .of_eq rfl rfl
      | again => exact .of_eq rfl rfl
      | error => exact .of_eq rfl rfl
  | serve k => exact Or.inr ⟨fun _ h => (by cases h), .setConn (pollServe_closes _ _)⟩
  | retry k => exact Or.inr ⟨fun _ h => (by cases h), .setConn (pollRetryConn_closes _ _)⟩
  | rx fn h =>
    refine Or.inr ⟨fun _ h => (by cases h), ?_⟩
    rw [clientStep]
    split_ifs
    · rw [tunnelTcpRxClient]
      split_ifs
      · exact .of_eq rfl rfl
      · cases TTTcpOp.ofByte h.opcode with
        | none => exact .of_eq rfl rfl
        | some op =>
          cases w.2.connFind fn h.connid with
          | none => exact .of_eq rfl rfl
          | some k => exact .setConn (rxClientConn_closes _ _ _ _)
    · exact .of_eq rfl rfl
  | resolve =>
    refine Or.inr ⟨fun _ h => (by cases h), ?_⟩
    rw [clientStep, tunnelResolve]
    split_ifs
    · exact .of_eq rfl rfl
    · cases env.friendByPk w.2.peerPk <;> exact .of_eq rfl rfl
  | elsewhere io => exact Or.inr ⟨fun _ h => (by cases h), .of_eq rfl rfl⟩

structure ConnIds (tn : TTTunnel) : Prop where
  nonzero : ∀ k, (tn.conns k).used = true → (tn.conns k).connid ≠ 0
  unique : ∀ k k', (tn.conns k).used = true → (tn.conns k').used = true →
    (tn.conns k).fn = (tn.conns k').fn → (tn.conns k).connid = (tn.conns k').connid → k = k'

/-- What a packet of a connection in use names is that connection. -/
def FindsConns (tn : TTTunnel) : Prop :=
  ∀ k, (tn.conns k).used = true → tn.connFind (tn.conns k).fn (tn.conns k).connid = some k

theorem ConnIds.finds {tn : TTTunnel} (h : ConnIds tn) : FindsConns tn := by
  intro k hk
  have hself : (tn.conns k).Matches (tn.conns k).fn (tn.conns k).connid := ⟨hk, rfl, rfl⟩
  cases hf : tn.connFind (tn.conns k).fn (tn.conns k).connid with
  | none =>
    have hnone := List.find?_eq_none.mp hf k (List.mem_finRange k)
    exact absurd (decide_eq_true hself) hnone
  | some k' =>
    have hmatch := List.find?_some hf
    obtain ⟨hu, hfn, hid⟩ := of_decide_eq_true hmatch
    rw [h.unique k' k hu hk hfn hid]

theorem ConnIds.onlyCloses {tn tn' : TTTunnel} (h : ConnIds tn) (hq : OnlyCloses tn tn') : ConnIds tn' where
  nonzero k hk := by
    rw [(hq.conns k).connid]
    exact h.nonzero k ((hq.conns k).used hk)
  unique k k' hk hk' hfn hid := by
    rw [(hq.conns k).fn, (hq.conns k').fn] at hfn
    rw [(hq.conns k).connid, (hq.conns k').connid] at hid
    exact h.unique k k' ((hq.conns k).used hk) ((hq.conns k').used hk') hfn hid

def NextFree (tn : TTTunnel) : Prop :=
  ∀ k, (tn.conns k).used = true → (tn.conns k).fn = tn.peerFn → (tn.conns k).connid ≠ tn.nextConnid

/-- Whenever a connection is accepted, its id is free. -/
def AcceptFree (env : TunnelEnv) (w : Io × TTTunnel) : ClientOp → Prop
  | .accept _ => env.accept w.1.clock ≠ none → w.2.connFreeSlot ≠ none → NextFree w.2
  | _ => True

theorem tunnelAccept_connIds_iff {tn : TTTunnel} {k : Fin ttTunnelMaxConns} (h : ConnIds tn)
    (hn : tn.nextConnid ≠ 0) (hk : tn.connFreeSlot = some k) (io : Io) (i fd : ℕ) :
    ConnIds (tunnelAccept C env io tn i fd k).2 ↔ NextFree tn := by
  have hunused := connFreeSlot_unused hk
  have hnew : ((tunnelAccept C env io tn i fd k).2.conns k) = { connAlloc (tn.conns k) with
      fn := tn.peerFn, portIdx := i, connid := tn.nextConnid, sock := some fd } := by
    simp [tunnelAccept, TTTunnel.setConn]
  have hold : ∀ k', k' ≠ k → (tunnelAccept C env io tn i fd k).2.conns k' = tn.conns k' := by
    intro k' hk'
    simp [tunnelAccept, TTTunnel.setConn, hk']
  constructor
  · intro hids k' hu hfn hid
    have hne : k' ≠ k := by
      rintro rfl
      rw [hunused] at hu
      cases hu
    apply hne
    apply hids.unique
    · rw [hold k' hne]
      exact hu
    · rw [hnew]
      rfl
    · rw [hold k' hne, hnew]
      exact hfn
    · rw [hold k' hne, hnew]
      exact hid
  · intro hfree
    constructor
    · intro k' hu
      by_cases hk' : k' = k
      · subst hk'
        rw [hnew]
        exact hn
      · rw [hold k' hk'] at hu ⊢
        exact h.nonzero k' hu
    · intro a b ha hb hfn hid
      by_cases hak : a = k <;> by_cases hbk : b = k
      · rw [hak, hbk]
      · subst hak
        rw [hold b hbk] at hb hfn hid
        rw [hnew] at hfn hid
        exact absurd hid.symm (hfree b hb hfn.symm)
      · subst hbk
        rw [hold a hak] at ha hfn hid
        rw [hnew] at hfn hid
        exact absurd hid (hfree a ha hfn)
      · rw [hold a hak] at ha hfn hid
        rw [hold b hbk] at hb hfn hid
        exact h.unique a b ha hb hfn hid

theorem tunnelAccept_next (io : Io) (tn : TTTunnel) (i fd : ℕ) (k : Fin ttTunnelMaxConns) :
    (tunnelAccept C env io tn i fd k).2.nextConnid ≠ 0 := by
  rw [tunnelAccept]
  dsimp only
  split_ifs with h
  · exact one_ne_zero
  · exact h

theorem clientStep_next (C : Crypto) (env : TunnelEnv) (w : Io × TTTunnel) (op : ClientOp)
    (hn : w.2.nextConnid ≠ 0) : (clientStep C env w op).2.nextConnid ≠ 0 := by
  obtain ⟨_, _, _, -, -, -, he⟩ | ⟨-, hq⟩ := clientStep_cases C env w op
  · rw [he]
    exact tunnelAccept_next _ _ _ _ _
  · rw [hq.next]
    exact hn

theorem clientStep_connIds_iff (C : Crypto) (env : TunnelEnv) (w : Io × TTTunnel) (op : ClientOp)
    (hn : w.2.nextConnid ≠ 0) (h : ConnIds w.2) :
    ConnIds (clientStep C env w op).2 ↔ AcceptFree env w op := by
  obtain ⟨i, fd, k, rfl, ha, hk, he⟩ | ⟨hnot, hq⟩ := clientStep_cases C env w op
  · rw [he, tunnelAccept_connIds_iff h hn hk]
    constructor
    · intro hfree _ _
      exact hfree
    · intro hfree
      apply hfree
      · rw [ha]
        simp
      · rw [hk]
        simp
  · refine iff_of_true (h.onlyCloses hq) ?_
    cases op with
    | accept i =>
      intro ha hk
      obtain hnone | hnone := hnot i rfl
      · exact absurd hnone ha
      · exact absurd hnone hk
    | _ => trivial

/-! ### Runs of a client tunnel -/

/-- A client tunnel as it is started, or as its accepted invite left it. -/
structure Started (tn : TTTunnel) : Prop where
  client : tn.host = false
  live : tn.pending = false
  conns : ∀ k, (tn.conns k).used = false
  next : tn.nextConnid = 1

theorem tunnelAlloc_started (id : ℕ) {s : TunnelSetup} (hh : s.host = false)
    (hp : s.pending = false) : Started (tunnelAlloc id s) where
  client := hh
  live := hp
  conns _ := rfl
  next := by
    rw [tunnelAlloc]
    simp [hh, hp]

theorem ttTunnelAccept_started (id : ℕ) {s : TunnelSetup} (hh : s.host = false)
    (hp : s.pending = true) (b : TunnelBind) : Started (ttTunnelAccept b (tunnelAlloc id s)) := by
  have hpend : ¬ (tunnelAlloc id s).pending = false := by
    rw [tunnelAlloc, hp]
    exact Bool.noConfusion
  rw [ttTunnelAccept, if_neg hpend]
  exact ⟨hh, rfl, fun _ => rfl, rfl⟩

theorem Started.connIds {tn : TTTunnel} (h : Started tn) : ConnIds tn where
  nonzero k hk := by
    rw [h.conns k] at hk
    cases hk
  unique k _ hk := by
    rw [h.conns k] at hk
    cases hk

/-- In a run of a client tunnel every id in use is nonzero and names one connection, which is the one
`conn_find` finds, in every state exactly when every connection is accepted under an id that no
connection in use with the friend has. -/
theorem client_conn_ids (C : Crypto) (env : TunnelEnv) (io : Io) {tn : TTTunnel} (h : Started tn)
    (ops : List ClientOp) :
    (∀ pre, pre <+: ops → ConnIds (pre.foldl (clientStep C env) (io, tn)).2 ∧
        FindsConns (pre.foldl (clientStep C env) (io, tn)).2) ↔
      Machine.Meets (clientStep C env) (AcceptFree env) (io, tn) ops := by
  have hn : tn.nextConnid ≠ 0 := by
    rw [h.next]
    exact one_ne_zero
  have hrun := Machine.forall_isPrefix_iff_meets (P := fun w => ConnIds w.2)
    (clientStep_next C env) (clientStep_connIds_iff C env) ops hn (s := (io, tn)) h.connIds
  rw [← hrun]
  constructor
  · intro hall pre hpre
    exact (hall pre hpre).1
  · intro hall pre hpre
    exact ⟨hall pre hpre, (hall pre hpre).finds⟩

namespace Instance

def busyEnv : TunnelEnv where
  ident _ := aliceEnv
  draws _ := draws 1
  now _ := 0
  custom _ := .ok
  recv _ := .again
  sender _ := 0
  taken _ := 0
  socket _ := none
  resolve _ _ _ := none
  connect _ := .failed
  soError _ := none
  accept _ := some 9
  friendByPk _ := none

def busySetup : TunnelSetup where
  host := false
  pending := false
  pendingSince := 0
  peerFn := 5
  peerPk := aliceSk
  serverHost := []
  udp := []
  tcp := []
  invited := none
  listenSock _ := none
  tcpListenSock _ := some 3
  udpLocal := []
  tcpLocal := [⟨1000, 1⟩]

def busyTunnel : TTTunnel := tunnelAlloc 1 busySetup

def plainIo : Io := ⟨none, 0, 0, []⟩

theorem busyTunnel_started : Started busyTunnel := tunnelAlloc_started 1 rfl rfl

-- two connections, the host refuses the first, and a third takes its slot
def twoOfThree : List ClientOp := [.accept 0, .accept 0, .rx 5 ⟨0, 1, 3, []⟩, .accept 0]

theorem client_conn_ids_twoOfThree :
    let tn := (twoOfThree.foldl (clientStep crypto busyEnv) (plainIo, busyTunnel)).2
    (tn.conns 0).Matches 5 3 ∧ (tn.conns 1).Matches 5 2 ∧ ConnIds tn ∧ FindsConns tn := by
  have hfree : ∀ n < 4, NextFree ((twoOfThree.take n).foldl (clientStep crypto busyEnv) (plainIo, busyTunnel)).2 := by
    unfold NextFree
    decide +kernel
  have hall := (client_conn_ids crypto busyEnv plainIo busyTunnel_started twoOfThree).mpr
    ⟨fun _ _ => hfree 0 (by decide), fun _ _ => hfree 1 (by decide), trivial, fun _ _ => hfree 3 (by decide),
      trivial⟩
  exact ⟨by decide +kernel, by decide +kernel, hall twoOfThree (List.prefix_refl _)⟩

def briefConn (m : ℕ) : List ClientOp := [.accept 0, .rx 5 ⟨0, m, 3, []⟩]

structure Holds (m : ℕ) (tn : TTTunnel) : Prop where
  peerFn : tn.peerFn = 5
  tcpLocal : tn.tcpLocal = [⟨1000, 1⟩]
  next : tn.nextConnid = m
  open_one : (tn.conns 0).Matches 5 1
  others : ∀ k, k ≠ 0 → (tn.conns k).used = false

theorem Holds.freeSlot {m : ℕ} {tn : TTTunnel} (h : Holds m tn) : tn.connFreeSlot = some 1 := by
  have hslots : (fun k => decide ((tn.conns k).used = false)) = fun k => decide (k ≠ 0) := by
    funext k
    by_cases hk : k = 0
    · rw [hk, h.open_one.1]
      rfl
    · simp [h.others k hk, hk]
  rw [TTTunnel.connFreeSlot, hslots]
  decide

theorem Holds.accepted {m : ℕ} {w : Io × TTTunnel} (h : Holds m w.2) :
    (clientStep crypto busyEnv w (.accept 0)).2 =
      (tunnelAccept crypto busyEnv w.1.tick w.2 0 9 1).2 := by
  rw [clientStep, acceptTurn, h.freeSlot]
  rfl

theorem Holds.find_second {m : ℕ} {w : Io × TTTunnel} (h : Holds m w.2) (hm : m ≠ 1) :
    (tunnelAccept crypto busyEnv w.1.tick w.2 0 9 1).2.connFind 5 m = some 1 := by
  have hslots : (fun k => decide (((tunnelAccept crypto busyEnv w.1.tick w.2 0 9 1).2.conns k).Matches
      5 m)) = fun k => decide (k = 1) := by
    funext k
    by_cases h0 : k = 0
    · have hid : ¬ (w.2.conns 0).Matches 5 m := fun hx => hm (hx.2.2.symm.trans h.open_one.2.2)
      simpa [tunnelAccept, TTTunnel.setConn, h0] using hid
    · by_cases h1 : k = 1
      · simp [tunnelAccept, TTTunnel.setConn, h1, TTTunnelConn.Matches, connAlloc, h.peerFn, h.next]
      · simp [tunnelAccept, TTTunnel.setConn, h1, TTTunnelConn.Matches, h.others k h0]
  rw [TTTunnel.connFind, hslots]
  decide

theorem Holds.brief {m : ℕ} {w : Io × TTTunnel} (h : Holds m w.2) (hm : m ≠ 1) :
    Holds (if (m + 1) % 2 ^ 16 = 0 then 1 else (m + 1) % 2 ^ 16)
      ((briefConn m).foldl (clientStep crypto busyEnv) w).2 := by
  have hrx : ((briefConn m).foldl (clientStep crypto busyEnv) w).2 =
      (tunnelAccept crypto busyEnv w.1.tick w.2 0 9 1).2.setConn 1
        (connFree ((tunnelAccept crypto busyEnv w.1.tick w.2 0 9 1).2.conns 1)) := by
    have hpeer : (tunnelAccept crypto busyEnv w.1.tick w.2 0 9 1).2.peerFn = 5 := h.peerFn
    have htcp : (tunnelAccept crypto busyEnv w.1.tick w.2 0 9 1).2.tcpLocal = [⟨1000, 1⟩] := h.tcpLocal
    have hport : ¬ 0 ≥ ttPortListLen [⟨1000, 1⟩] := by decide
    have hstep : ∀ w' hd, clientStep crypto busyEnv w' (.rx 5 hd) =
        if 5 = w'.2.peerFn then tunnelTcpRxClient crypto busyEnv w'.1 w'.2 5 hd else w' :=
      fun _ _ => rfl
    rw [briefConn, List.foldl_cons, List.foldl_cons, List.foldl_nil, hstep, h.accepted,
      if_pos hpeer.symm, tunnelTcpRxClient, htcp, if_neg hport]
    dsimp only
    rw [h.find_second hm]
    rfl
  rw [hrx]
  constructor
  · exact h.peerFn
  · exact h.tcpLocal
  · change (if (w.2.nextConnid + 1) % 2 ^ 16 = 0 then 1 else (w.2.nextConnid + 1) % 2 ^ 16) = _
    rw [h.next]
  · simpa [tunnelAccept, TTTunnel.setConn] using h.open_one
  · intro k hk
    by_cases h1 : k = 1
    · rw [h1]
      rfl
    · simpa [tunnelAccept, TTTunnel.setConn, h1] using h.others k hk

def longRun (n : ℕ) : List ClientOp :=
  .accept 0 :: (List.range n).flatMap fun j => briefConn (j + 2)

theorem longRun_holds {n : ℕ} (hn : n ≤ 65534) :
    Holds (if n = 65534 then 1 else n + 2)
      ((longRun n).foldl (clientStep crypto busyEnv) (plainIo, busyTunnel)).2 := by
  induction n with
  | zero =>
    have hslot : busyTunnel.connFreeSlot = some 0 := by decide
    have hfirst : ((longRun 0).foldl (clientStep crypto busyEnv) (plainIo, busyTunnel)).2 =
        (tunnelAccept crypto busyEnv plainIo.tick busyTunnel 0 9 0).2 := by
      rw [longRun, List.range_zero, List.flatMap_nil, List.foldl_cons, List.foldl_nil, clientStep,
        acceptTurn]
      dsimp only
      rw [hslot]
      rfl
    rw [hfirst]
    constructor
    · rfl
    · rfl
    · rfl
    · exact ⟨rfl, rfl, rfl⟩
    · intro k hk
      simp [tunnelAccept, TTTunnel.setConn, hk, busyTunnel_started.conns k]
  | succ n ih =>
    have hprev := ih (by omega)
    rw [if_neg (by omega)] at hprev
    have hnext := hprev.brief (by omega)
    have hlist : longRun (n + 1) = longRun n ++ briefConn (n + 2) := by
      simp [longRun, List.range_succ]
    rw [hlist, List.foldl_append]
    convert hnext using 1
    split_ifs <;> omega

theorem longRun_reuses {n : ℕ} (hn : n = 65534) : ¬ ConnIds
    ((longRun n ++ [ClientOp.accept 0]).foldl (clientStep crypto busyEnv) (plainIo, busyTunnel)).2 := by
  intro hids
  have hholds := longRun_holds hn.le
  rw [if_pos hn] at hholds
  rw [List.foldl_append, List.foldl_cons, List.foldl_nil, hholds.accepted] at hids
  have hone : (0 : Fin ttTunnelMaxConns) = 1 := by
    apply hids.unique
    · simpa [tunnelAccept, TTTunnel.setConn] using hholds.open_one.1
    · simp [tunnelAccept, TTTunnel.setConn, connAlloc]
    · simpa [tunnelAccept, TTTunnel.setConn, hholds.peerFn] using hholds.open_one.2.1
    · simpa [tunnelAccept, TTTunnel.setConn, hholds.next] using hholds.open_one.2.2
  exact absurd hone (by decide)

theorem connId_reused : Started busyTunnel ∧ ∃ ops, ¬ ConnIds
    (List.foldl (clientStep crypto busyEnv) (plainIo, busyTunnel) ops).2 :=
  ⟨busyTunnel_started, _, longRun_reuses rfl⟩

end Instance

end TkTox
