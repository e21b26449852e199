import TkTox.Allowlist

/-!
Whose traffic a host tunnel relays. Datagrams are checked against the allowlist, connections are
not, and a denial leaves the friend's sockets and connections as they are.
-/

namespace TkTox

def parseUdp : Bytes → Option (ℕ × Bytes)
  | id :: ver :: port :: payload =>
    if id = ttTunnelPacketId ∧ ver = ttTunnelVersion then some (port.toNat, payload) else none
  | _ => none

inductive HostOp
  | allow (pk : Key)
  | deny (pk : Key)
  | rx (fn : ℕ) (pkt : Bytes)
  | rxTcp (fn : ℕ) (pkt : Bytes)
  | poll
  -- the invited friend's answer, and the user's stop
  | accepted
  | stopped
  -- sessions and clock are shared with the rest of the thread
  | elsewhere (tun : Option (ℕ → TTSession)) (clock : ℕ)

def hostStep (C : Crypto) (env : TunnelEnv) (w : Io × Option TTTunnel) (op : HostOp) : Io × Option TTTunnel :=
  match w.2 with
  | none => w
  | some tn =>
    match op with
    | .allow pk => (w.1, some (tunnelAllow env tn pk))
    | .deny pk => (w.1, some (tunnelDeny tn pk))
    | .rx fn pkt =>
      match parseUdp pkt with
      | none => w
      | some (portIdx, data) =>
        let r := tunnelRx env fn portIdx data w.1 tn
        (r.1, some r.2)
    | .rxTcp fn pkt =>
      match parseTcp pkt with
      | none => w
      | some h =>
        let r := tunnelRxTcp C env fn h w.1 tn
        (r.1, some r.2)
    | .poll => tunnelPoll C env w.1 tn
    | .accepted => (w.1, some { tn with pending := false })
    | .stopped => (w.1, none)
    | .elsewhere tun clock => ({ w.1 with tun := tun, clock := clock }, some tn)

structure HostKept (C : Crypto) (env : TunnelEnv) (w : Io × Option TTTunnel) (op : HostOp) : Prop where
  relayed : w.1.RelaysFor (fun fn => ∃ tn ∈ w.2, tn.Allowed fn) (hostStep C env w op).1
  denied : ∀ pk, op = .deny pk → ∀ tn ∈ w.2, ∀ fn, fn ≠ noFriend → tn.Lists pk fn →
    ∀ tn' ∈ (hostStep C env w op).2, ¬ tn'.Allowed fn ∧
      (∀ j, (tn.socks j).used = true → (tn.socks j).fn ≠ fn → tn'.socks j = tn.socks j) ∧
      ∀ k, (tn.conns k).used = true → (tn.conns k).fn ≠ fn → tn'.conns k = tn.conns k

/-- Every step of the run is kept, and from a denial on nothing is relayed for the friend until his
key is allowed again. -/
def AccessControl (C : Crypto) (env : TunnelEnv) (w : Io × Option TTTunnel) (ops : List HostOp) : Prop :=
  (∀ pre op, pre ++ [op] <+: ops → HostKept C env (pre.foldl (hostStep C env) w) op) ∧
  ∀ pre pk mid, pre ++ .deny pk :: mid <+: ops → .allow pk ∉ mid →
    ∀ fn, fn ≠ noFriend → (∃ tn ∈ (pre.foldl (hostStep C env) w).2, tn.Lists pk fn) →
      (pre.foldl (hostStep C env) w).1.RelaysFor (· ≠ fn)
        ((pre ++ .deny pk :: mid).foldl (hostStep C env) w).1

/-- An OPEN that gets a slot comes from a friend in the allowlist. A friend is denied when his only
socket is the one in the slot of his number and he has no connection, and nobody else's socket is in
that slot. -/
def AccessOk (w : Io × Option TTTunnel) : HostOp → Prop
  | .deny pk => ∀ tn ∈ w.2, ∀ fn, tn.Lists pk fn →
      (∀ j, (tn.socks j).used = true → (tn.socks j).fn = fn → j = fn) ∧
      (fn < ttMaxFriends → (tn.socks fn).used = true → (tn.socks fn).fn = fn) ∧
      ∀ k, (tn.conns k).used = true → (tn.conns k).fn ≠ fn
  | .rxTcp fn pkt => ∀ tn ∈ w.2, tn.pending = false → ∀ h, parseTcp pkt = some h →
      TTTcpOp.ofByte h.opcode = some .open → tn.connFind fn h.connid = none → tn.connFreeSlot ≠ none →
      tn.Allowed fn
  | _ => True
section

variable {C : Crypto} {env : TunnelEnv} {tn : TTTunnel}

def AllowsOnly (env : TunnelEnv) (op : HostOp) (tn tn' : TTTunnel) : Prop :=
  ∀ fn, tn'.Allowed fn → tn.Allowed fn ∨ ∃ pk, op = .allow pk ∧ (env.friendByPk pk).getD noFriend = fn

theorem AllowsOnly.of_eq {op : HostOp} {tn' : TTTunnel} (h : tn'.allow = tn.allow) :
    AllowsOnly env op tn tn' := by
  intro fn hA
  rw [TTTunnel.Allowed, h] at hA
  exact .inl hA

theorem hostStep_guarded (hg : Guarded env tn) (io : Io) {op : HostOp} (hok : AccessOk (io, some tn) op) :
    io.RelaysFor tn.Allowed (hostStep C env (io, some tn) op).1 ∧
      ∀ tn' ∈ (hostStep C env (io, some tn) op).2, Guarded env tn' ∧ AllowsOnly env op tn tn' := by
  have hturn {r : Io × TTTunnel} (h : HostTurn io tn r) :
      io.RelaysFor tn.Allowed r.1 ∧ ∀ tn' ∈ some r.2, Guarded env tn' ∧ AllowsOnly env op tn tn' := by
    refine ⟨h.relays, ?_⟩
    rintro tn' ⟨⟩
    exact ⟨h.guarded hg, .of_eq h.allow⟩
  cases op with
  | allow pk =>
    refine ⟨.refl io, ?_⟩
    rintro tn' ⟨⟩
    refine ⟨hg.allow pk, fun fn hA => ?_⟩
    obtain hA | hpk := tunnelAllow_allowed hA
    · exact .inl hA
    · exact .inr ⟨pk, rfl, hpk⟩
  | deny pk =>
    refine ⟨.refl io, ?_⟩
    rintro tn' ⟨⟩
    refine ⟨hg.deny pk fun fn hf => ⟨(hok tn rfl fn hf).1, (hok tn rfl fn hf).2.2⟩, fun fn hA => .inl ?_⟩
    obtain ⟨-, he⟩ | ⟨k, hu, -, -, -, hallow, -⟩ := tunnelDeny_cases hg.host pk
    · rwa [he] at hA
    · obtain ⟨k', hu', hfn⟩ := hA
      rw [hallow] at hu' hfn
      by_cases hk : k' = k
      · subst hk
        rw [Function.update_self] at hu'
        cases hu'
      · rw [Function.update_of_ne hk] at hu' hfn
        exact ⟨k', hu', hfn⟩
  | rx fn pkt =>
    simp only [hostStep]
    cases parseUdp pkt with
    | none => exact hturn (hg.turn (.refl io))
    | some p =>
      apply hturn
      rw [tunnelRx]
      split_ifs
      · exact hg.turn (.refl io)
      · exact hostForward_turn hg io fn p.1 p.2
      all_goals exact absurd hg.host ‹_›
  | rxTcp fn pkt =>
    simp only [hostStep]
    cases hp : parseTcp pkt with
    | none => exact hturn (hg.turn (.refl io))
    | some h =>
      apply hturn
      rw [tunnelRxTcp]
      split_ifs with hpend hhost
      · exact hg.turn (.refl io)
      · apply tunnelTcpRxHost_turn hg io fn h
        exact hok tn rfl (by simpa using hpend) h hp
      all_goals exact absurd hg.host ‹_›
  | poll =>
    obtain ⟨hrel, hnext⟩ := tunnelPoll_turn (C := C) hg io
    exact ⟨hrel, fun tn' h => ⟨(hnext tn' h).1, .of_eq (hnext tn' h).2⟩⟩
  | accepted =>
    exact hturn (r := (io, { tn with pending := false })) ⟨.refl io, rfl, rfl, hg.socks, hg.conns⟩
  | stopped => exact ⟨.refl io, by simp [hostStep]⟩
  | elsewhere tun clock => exact hturn (r := (_, tn)) (hg.turn (.of_log rfl))

theorem hostStep_kept (hpk : ∀ pk pk' fn, env.friendByPk pk = some fn → env.friendByPk pk' = some fn → pk = pk')
    (hg : Guarded env tn) (io : Io) {op : HostOp} (hok : AccessOk (io, some tn) op) :
    HostKept C env (io, some tn) op := by
  constructor
  · apply (hostStep_guarded hg io hok).1.mono
    intro fn hA
    exact ⟨tn, rfl, hA⟩
  · rintro pk rfl tn ⟨⟩ fn hfn ⟨i, hu, hipk, rfl⟩ tn' ⟨⟩
    obtain ⟨hnone, -⟩ | ⟨k, hku, hkpk, -, hconns, hallow, hsocks, -, hsame⟩ := tunnelDeny_cases hg.host pk
    · exact absurd hipk (hnone i hu)
    obtain rfl : k = i := hg.distinct k i hku hu (hkpk.trans hipk.symm)
    obtain ⟨-, hslot, -⟩ := hok tn rfl (tn.allow k).fn ⟨k, hku, hkpk, rfl⟩
    refine ⟨?_, ?_, fun k' _ _ => by rw [hconns]⟩
    · rintro ⟨k', hu', hfn'⟩
      rw [hallow] at hu' hfn'
      by_cases hk : k' = k
      · subst hk
        rw [Function.update_self] at hu'
        cases hu'
      · rw [Function.update_of_ne hk] at hu' hfn'
        have hknown := hg.known k hku hfn
        have hknown' := hg.known k' hu' (by rwa [hfn'])
        rw [hfn'] at hknown'
        exact hk (hg.distinct k' k hu' hku (hpk _ _ _ hknown' hknown))
    · intro j hj hne
      by_cases hlt : (tn.allow k).fn < ttMaxFriends
      · apply hsocks
        rintro rfl
        exact hne (hslot hlt hj)
      · rw [hsame hlt]

def GuardedOpt (env : TunnelEnv) (w : Io × Option TTTunnel) : Prop := ∀ tn ∈ w.2, Guarded env tn

theorem hostStep_guardedOpt {w : Io × Option TTTunnel} (hg : GuardedOpt env w) {op : HostOp}
    (hok : AccessOk w op) : GuardedOpt env (hostStep C env w op) := by
  obtain ⟨io, _ | tn⟩ := w
  · exact hg
  · intro tn' h
    exact ((hostStep_guarded (hg tn rfl) io hok).2 tn' h).1

theorem run_relays_others (fn : ℕ) {pk : Key} (hpk : ∀ pk', env.friendByPk pk' = some fn → pk' = pk)
    (hfn : fn ≠ noFriend) (ops : List HostOp) (hmid : .allow pk ∉ ops) {w : Io × Option TTTunnel}
    (hg : GuardedOpt env w) (hm : Machine.Meets (hostStep C env) AccessOk w ops)
    (hA : ∀ tn ∈ w.2, ¬ tn.Allowed fn) : w.1.RelaysFor (· ≠ fn) (ops.foldl (hostStep C env) w).1 := by
  induction ops generalizing w with
  | nil => exact .refl w.1
  | cons op ops ih =>
    have hstep : w.1.RelaysFor (· ≠ fn) (hostStep C env w op).1 ∧
        ∀ tn ∈ (hostStep C env w op).2, ¬ tn.Allowed fn := by
      obtain ⟨io, _ | tn⟩ := w
      · exact ⟨.refl io, by simp [hostStep]⟩
      · obtain ⟨hrel, hnext⟩ := hostStep_guarded (C := C) (hg tn rfl) io hm.1
        constructor
        · apply hrel.mono
          rintro fn' hA' rfl
          exact hA tn rfl hA'
        · intro tn' h hA'
          obtain hA' | ⟨pk', rfl, hpk'⟩ := (hnext tn' h).2 fn hA'
          · exact hA tn rfl hA'
          · have hsome : env.friendByPk pk' = some fn := by
              cases hf : env.friendByPk pk' with
              | none =>
                rw [hf] at hpk'
                exact absurd hpk'.symm hfn
              | some fn' =>
                rw [hf] at hpk'
                rw [← hpk']
                rfl
            rw [hpk pk' hsome] at hmid
            exact hmid (List.mem_cons_self ..)
    apply hstep.1.trans
    exact ih (fun h => hmid (List.mem_cons_of_mem op h)) (hostStep_guardedOpt hg hm.1) hm.2 hstep.2

theorem tunnelAlloc_guarded (id : ℕ) {s : TunnelSetup} (hh : s.host = true)
    (hinv : ∀ a ∈ s.invited, a.fn ≠ noFriend → env.friendByPk a.pk = some a.fn) :
    Guarded env (tunnelAlloc id s) := by
  have hused {k : Fin ttTunnelAllowMax} (hu : ((tunnelAlloc id s).allow k).used = true) :
      k.val = 0 ∧ (tunnelAlloc id s).allow k ∈ s.invited := by
    simp only [tunnelAlloc] at hu ⊢
    split_ifs at hu ⊢ with hk
    · cases hi : s.invited with
      | none =>
        rw [hi] at hu
        cases hu
      | some a => exact ⟨hk, rfl⟩
  refine ⟨hh, fun j hj => (by cases hj), fun k hk => (by cases hk), ?_, ?_⟩
  · intro k hu
    exact hinv _ (hused hu).2
  · intro k k' hu hu' _
    exact Fin.ext ((hused hu).1.trans (hused hu').1.symm)

/-- In a run of a host tunnel whose connections are opened by friends in the allowlist and whose
denied friends have no more than the socket a denial closes, everything is relayed for friends in the
allowlist, and nothing after a denial. -/
theorem host_access_control (C : Crypto)
    (hpk : ∀ pk pk' fn, env.friendByPk pk = some fn → env.friendByPk pk' = some fn → pk = pk')
    (io : Io) (id : ℕ) {s : TunnelSetup} (hh : s.host = true)
    (hinv : ∀ a ∈ s.invited, a.fn ≠ noFriend → env.friendByPk a.pk = some a.fn) (ops : List HostOp)
    (hm : Machine.Meets (hostStep C env) AccessOk (io, some (tunnelAlloc id s)) ops) :
    AccessControl C env (io, some (tunnelAlloc id s)) ops := by
  have hg₀ : GuardedOpt env (io, some (tunnelAlloc id s)) := by
    rintro tn ⟨⟩
    exact tunnelAlloc_guarded id hh hinv
  have hstep (w : Io × Option TTTunnel) (op : HostOp) (hg : GuardedOpt env w) (hok : AccessOk w op) :
      GuardedOpt env (hostStep C env w op) := hostStep_guardedOpt hg hok
  constructor
  · rintro pre op ⟨rest, rfl⟩
    rw [List.append_assoc] at hm
    obtain ⟨hg, hm⟩ := Machine.meets_append hstep hg₀ hm
    generalize pre.foldl (hostStep C env) (io, some (tunnelAlloc id s)) = w at hg hm ⊢
    obtain ⟨io', _ | tn⟩ := w
    · exact ⟨.refl io', by simp⟩
    · exact hostStep_kept hpk (hg tn rfl) io' hm.1
  · rintro pre pk mid ⟨rest, rfl⟩ hmid fn hfn ⟨tn, htn, hlists⟩
    rw [List.append_assoc] at hm
    obtain ⟨hg, hm⟩ := Machine.meets_append hstep hg₀ hm
    rw [List.foldl_append]
    generalize pre.foldl (hostStep C env) (io, some (tunnelAlloc id s)) = w at hg hm htn ⊢
    obtain ⟨io', t⟩ := w
    obtain rfl : t = some tn := htn
    have hkept : HostKept C env (io', some tn) (.deny pk) := hostStep_kept hpk (hg tn rfl) io' hm.1
    have hfound : env.friendByPk pk = some fn := by
      obtain ⟨k, hu, rfl, rfl⟩ := hlists
      exact (hg tn rfl).known k hu hfn
    have hm' : Machine.Meets (hostStep C env) AccessOk (hostStep C env (io', some tn) (.deny pk)) mid :=
      Machine.meets_prefix hm.2
    exact run_relays_others fn (fun pk' h => hpk pk' pk fn h hfound) hfn mid hmid
      (hostStep_guardedOpt hg hm.1) hm' fun tn' h => (hkept.denied pk rfl tn rfl fn hfn hlists tn' h).1

end

namespace Instance

def hostEnv : TunnelEnv where
  ident _ := aliceEnv
  draws _ := draws 1
  now _ := 0
  custom _ := .ok
  recv _ := .again
  sender _ := 0
  taken _ := 0
  socket _ := some 4
  resolve _ _ _ := some 80
  connect _ := .done
  soError _ := none
  accept _ := none
  friendByPk pk := if pk = aliceSk then some 0 else if pk = bobSk then some 3 else none

-- A share with Alice, who is friend 0, of four UDP ports and a TCP port.
def hostSetup : TunnelSetup where
  host := true
  pending := false
  pendingSince := 0
  peerFn := 0
  peerPk := aliceSk
  serverHost := [49]
  udp := [⟨100, 4⟩]
  tcp := [⟨80, 1⟩]
  invited := some ⟨true, aliceSk, 0⟩
  listenSock _ := none
  tcpListenSock _ := none
  udpLocal := []
  tcpLocal := []

def hostStart : Io × Option TTTunnel := (plainIo, some (tunnelAlloc 1 hostSetup))

def sharedTunnel : TTTunnel :=
  tunnelAllow hostEnv (tunnelRx hostEnv 0 3 [9] plainIo (tunnelAlloc 1 hostSetup)).2 bobSk

def openPkt : Bytes := [162, 1, 0, 0, 1, 1]
def dataPkt : Bytes := [162, 1, 0, 0, 1, 4, 9]

-- Friend 7, who is not in the list, has a connection to the server opened. Alice's connection stays
-- after she is denied, and relays. The denial of friend 3 closes Alice's socket in slot 3.
theorem access_uncontrolled :
    ¬ AccessControl crypto hostEnv hostStart [.rxTcp 7 openPkt] ∧
      ¬ AccessControl crypto hostEnv hostStart [.rxTcp 0 openPkt, .deny aliceSk, .rxTcp 0 dataPkt] ∧
      ¬ AccessControl crypto hostEnv hostStart [.rx 0 [200, 1, 3, 9], .allow bobSk, .deny bobSk] := by
  refine ⟨?_, ?_, ?_⟩
  · intro h
    obtain ⟨l, hl, hall⟩ := (h.1 [] (.rxTcp 7 openPkt) (List.prefix_refl _)).relayed
    have hmem : (0, TunnelEffect.connect 7 4 80) ∈
        (hostStep crypto hostEnv hostStart (.rxTcp 7 openPkt)).1.log := by decide
    have hnot : ¬ (tunnelAlloc 1 hostSetup).Allowed 7 := by decide
    rw [List.foldl_nil] at hl
    rw [hl] at hmem
    obtain ⟨tn, ⟨⟩, hA⟩ := hall _ hmem 7 rfl
    exact hnot hA
  · intro h
    have hlists : (tunnelAlloc 1 hostSetup).Lists aliceSk 0 := ⟨0, rfl, rfl, rfl⟩
    obtain ⟨l, hl, hall⟩ := h.2 [.rxTcp 0 openPkt] aliceSk [.rxTcp 0 dataPkt] (List.prefix_refl _)
      (by simp) 0 (by decide) ⟨_, rfl, hlists⟩
    have hmem : (0, TunnelEffect.wrote 0 4 [9] 0) ∈ ([HostOp.rxTcp 0 openPkt, .deny aliceSk,
        .rxTcp 0 dataPkt].foldl (hostStep crypto hostEnv) hostStart).1.log := by decide
    have hnew : (0, TunnelEffect.wrote 0 4 [9] 0) ∉
        ([HostOp.rxTcp 0 openPkt].foldl (hostStep crypto hostEnv) hostStart).1.log := by decide
    rw [List.singleton_append] at hl
    rw [hl] at hmem
    obtain hmem | hmem := List.mem_append.mp hmem
    · exact hnew hmem
    · exact hall _ hmem 0 rfl rfl
  · intro h
    have hlists : sharedTunnel.Lists bobSk 3 :=
      ⟨1, by decide +kernel, by decide +kernel, by decide +kernel⟩
    have hsock : sharedTunnel.socks 3 = ⟨true, 0, 3, some 4, 80⟩ := by decide +kernel
    have hclosed : ((tunnelDeny sharedTunnel bobSk).socks 3).used = false := by decide +kernel
    have hkept := h.1 [.rx 0 [200, 1, 3, 9], .allow bobSk] (.deny bobSk) (List.prefix_refl _)
    have hdenied := hkept.denied bobSk rfl sharedTunnel rfl 3 (by decide) hlists
      (tunnelDeny sharedTunnel bobSk) rfl
    have hsame := hdenied.2.1 3 (by rw [hsock]) (by rw [hsock]; decide)
    rw [hsame, hsock] at hclosed
    cases hclosed

end Instance

theorem host_access_control_friend : AccessControl Instance.crypto Instance.hostEnv Instance.hostStart
    [.rxTcp 0 Instance.openPkt, .rxTcp 0 Instance.dataPkt] := by
  have hpk (pk pk' : Key) (fn : ℕ) (h : Instance.hostEnv.friendByPk pk = some fn)
      (h' : Instance.hostEnv.friendByPk pk' = some fn) : pk = pk' := by
    have hcases {pk : Key} (h : Instance.hostEnv.friendByPk pk = some fn) :
        pk = Instance.aliceSk ∧ fn = 0 ∨ pk = Instance.bobSk ∧ fn = 3 := by
      simp only [Instance.hostEnv] at h
      split_ifs at h with ha hb
      · exact .inl ⟨ha, (Option.some.inj h).symm⟩
      · exact .inr ⟨hb, (Option.some.inj h).symm⟩
    obtain ⟨rfl, rfl⟩ | ⟨rfl, rfl⟩ := hcases h <;> obtain ⟨rfl, hf⟩ | ⟨rfl, hf⟩ := hcases h'
    · rfl
    · cases hf
    · cases hf
    · rfl
  apply host_access_control Instance.crypto hpk Instance.plainIo 1 (s := Instance.hostSetup) rfl
  · rintro a ⟨⟩ _
    rfl
  · refine ⟨?_, ?_, trivial⟩
    · rintro tn ⟨⟩ _ h _ _ _ _
      exact ⟨0, rfl, rfl⟩
    · rintro tn ⟨⟩ _ h hh hop
      obtain rfl := Option.some.inj hh.symm
      cases hop

end TkTox