import TkTox.TunnelRefine

/-!
The life of a connection: who may be in use while which frames are in flight. These facts hold
in every run whose packets reach the tunnel layer as they were built, and the results about
credit, release and the byte streams all start from them.
-/

namespace TkTox

structure Idle (c : TTTunnelConn) : Prop where
  sock : c.sock = none
  connecting : c.connecting = false
  peerGone : c.peerGone = false
  unacked : c.unacked = 0
  ackDue : c.ackDue = 0
  pend : c.pend = []
  outbuf : c.outbuf = []

theorem idle_connFree (c : TTTunnelConn) : Idle (connFree c) := ⟨rfl, rfl, rfl, rfl, rfl, rfl, rfl⟩

theorem idle_zero : Idle .zero := ⟨rfl, rfl, rfl, rfl, rfl, rfl, rfl⟩

def Pipe.NoOpen (p : Pipe) : Prop := ∀ f ∈ p.flight .host, f.op ≠ .open

structure Pipe.Life (cfg : LinkCfg) (p : Pipe) : Prop extends Pipe.Wf cfg p where
  idle : ∀ i, (p.conn i).used = false → Idle (p.conn i)
  fresh : p.accepted = false → (∀ i, (p.conn i).used = false) ∧ ∀ i, p.flight i = []
  -- an OPEN is the first frame to the host, and the host has done nothing before it
  first : ∀ f ∈ (p.flight .host).tail, f.op ≠ .open
  opening : ¬p.NoOpen → (p.conn .host).used = false ∧ p.flight .client = [] ∧
    (p.conn .client).peerGone = false
  -- who sent a FIN is gone for good
  fin : ∀ i, ∀ f ∈ p.flight i, f.op = .fin → (p.conn i.other).used = false
  gone : ∀ i, (p.conn i).peerGone = true → (p.conn i.other).used = false
  sock : ∀ i, (p.conn i).used = true → (p.conn i).peerGone = true ∨ (p.conn i).sock.isSome = true

section

variable {cfg : LinkCfg} {K : MoveCond} {p p' : Pipe} {i : Side}

theorem Pipe.Life.accepted (h : p.Life cfg) (hu : (p.conn i).used = true) : p.accepted = true := by
  by_contra hn
  have := (h.fresh (by simpa using hn)).1 i
  simp [hu] at this

theorem Pipe.Life.accepted_of_flight (h : p.Life cfg) (hf : p.flight i ≠ []) : p.accepted = true := by
  by_contra hn
  exact hf ((h.fresh (by simpa using hn)).2 i)

theorem Pipe.Life.noOpen_of_used (h : p.Life cfg) (hu : (p.conn .host).used = true) : p.NoOpen := by
  by_contra hn
  have := (h.opening hn).1
  simp [hu] at this

structure Evolves (p : Pipe) (i : Side) (c : TTTunnelConn) : Prop where
  used : c.used = true → (p.conn i).used = true
  fn : c.used = true → c.fn = (p.conn i).fn
  portIdx : c.used = true → c.portIdx = (p.conn i).portIdx
  connid : c.used = true → c.connid = (p.conn i).connid
  idle : c.used = false → Idle c
  gone : c.peerGone = true → (p.conn i.other).used = false ∧ p.NoOpen
  sock : c.used = true → c.peerGone = true ∨ c.sock.isSome = true

theorem Evolves.free (p : Pipe) (i : Side) (c : TTTunnelConn) : Evolves p i (connFree c) where
  used h := by simp at h
  fn h := by simp at h
  portIdx h := by simp at h
  connid h := by simp at h
  idle _ := idle_connFree c
  gone h := by simp at h
  sock h := by simp at h

def Sends (cfg : LinkCfg) (i : Side) (c : TTTunnelConn) (p : Pipe) (out : List TcpFrame) : Prop :=
  ∀ f ∈ out, (f.portIdx = cfg.portIdx ∧ f.connid = cfg.connid) ∧ f.op ≠ .open ∧
    (f.op = .fin → c.used = false) ∧ (i = .host → p.NoOpen)

theorem Side.cases (i j : Side) : j = i ∨ j = i.other := by
  cases i <;> cases j <;> simp [Side.other]

theorem noOpen_put {c : TTTunnelConn} {out gone : List TcpFrame} {rd wr : Bytes} (h : p.NoOpen)
    (ho : ∀ f ∈ out, f.op ≠ .open) : (p.put i c out gone rd wr).NoOpen := by
  intro f hf
  cases i with
  | host =>
    rw [Pipe.put_flight_self] at hf
    exact h f hf
  | client =>
    rw [show Side.host = Side.client.other from rfl, Pipe.put_flight_other, List.mem_append] at hf
    exact hf.elim (h f) (ho f)

theorem tail_append_mem {α : Type*} {l : List α} {m : List α} {x : α} (h : x ∈ (l ++ m).tail) :
    x ∈ l.tail ∨ x ∈ m := by
  cases l with
  | nil => exact Or.inr (List.mem_of_mem_tail h)
  | cons a l =>
    rw [List.cons_append, List.tail_cons, List.mem_append] at h
    exact h

theorem Pipe.Life.put (h : p.Life cfg) (hacc : p.accepted = true) {c : TTTunnelConn}
    {out gone : List TcpFrame} {rd wr : Bytes} (hc : Evolves p i c) (ho : Sends cfg i c p out) :
    (p.put i c out gone rd wr).Life cfg := by
  have hmem : ∀ j, ∀ f ∈ (p.put i c out gone rd wr).flight j, f ∈ p.flight j ∨ (j = i.other ∧ f ∈ out) := by
    intro j f hf
    obtain rfl | rfl := Side.cases i j
    · rw [Pipe.put_flight_self] at hf
      exact Or.inl hf
    · rw [Pipe.put_flight_other, List.mem_append] at hf
      exact hf.imp_right fun h => ⟨rfl, h⟩
  have hno : p.NoOpen → (p.put i c out gone rd wr).NoOpen := fun hn =>
    noOpen_put hn fun f hf => (ho f hf).2.1
  have hunused : (p.conn i).used = false → c.used = false := by
    intro hu
    by_contra hc'
    have := hc.used (by simpa using hc')
    simp [hu] at this
  refine ⟨⟨?_, ?_⟩, ?_, ?_, ?_, ?_, ?_, ?_, ?_⟩
  · intro j hj
    obtain rfl | rfl := Side.cases i j
    · rw [Pipe.put_conn_self] at hj ⊢
      rw [hc.fn hj, hc.portIdx hj, hc.connid hj]
      exact h.conn j (hc.used hj)
    · rw [Pipe.put_conn_other] at hj ⊢
      exact h.conn i.other hj
  · intro j f hf
    obtain hf | ⟨-, hf⟩ := hmem j f hf
    · exact h.flight j f hf
    · exact (ho f hf).1
  · intro j hj
    obtain rfl | rfl := Side.cases i j
    · rw [Pipe.put_conn_self] at hj ⊢
      exact hc.idle hj
    · rw [Pipe.put_conn_other] at hj ⊢
      exact h.idle i.other hj
  · intro hn
    rw [Pipe.put_accepted, hacc] at hn
    cases hn
  · intro f hf
    cases i with
    | host =>
      rw [Pipe.put_flight_self] at hf
      exact h.first f hf
    | client =>
      rw [show Side.host = Side.client.other from rfl, Pipe.put_flight_other] at hf
      obtain hf | hf := tail_append_mem hf
      · exact h.first f hf
      · exact (ho f hf).2.1
  · intro hn
    have hn' : ¬p.NoOpen := fun hp => hn (hno hp)
    obtain ⟨h1, h2, h3⟩ := h.opening hn'
    cases i with
    | host =>
      have hout : out = [] := by
        apply List.eq_nil_iff_forall_not_mem.mpr
        intro f hf
        exact hn' ((ho f hf).2.2.2 rfl)
      refine ⟨?_, ?_, ?_⟩
      · rw [Pipe.put_conn_self]
        exact hunused h1
      · rw [show Side.client = Side.host.other from rfl, Pipe.put_flight_other, hout, List.append_nil]
        exact h2
      · rw [show Side.client = Side.host.other from rfl, Pipe.put_conn_other]
        exact h3
    | client =>
      refine ⟨?_, ?_, ?_⟩
      · rw [show Side.host = Side.client.other from rfl, Pipe.put_conn_other]
        exact h1
      · rw [Pipe.put_flight_self]
        exact h2
      · rw [Pipe.put_conn_self]
        by_contra hg
        exact hn' (hc.gone (by simpa using hg)).2
  · intro j f hf hop
    obtain hf' | ⟨rfl, hf'⟩ := hmem j f hf
    · have hu := h.fin j f hf' hop
      obtain rfl | rfl := Side.cases i j
      · rw [Pipe.put_conn_other]
        exact hu
      · rw [Side.other_other, Pipe.put_conn_self]
        exact hunused (by simpa using hu)
    · rw [Side.other_other, Pipe.put_conn_self]
      exact (ho f hf').2.2.1 hop
  · intro j hg
    obtain rfl | rfl := Side.cases i j
    · rw [Pipe.put_conn_self] at hg
      rw [Pipe.put_conn_other]
      exact (hc.gone hg).1
    · rw [Pipe.put_conn_other] at hg
      rw [Side.other_other, Pipe.put_conn_self]
      exact hunused (by simpa using h.gone i.other hg)
  · intro j hj
    obtain rfl | rfl := Side.cases i j
    · rw [Pipe.put_conn_self] at hj ⊢
      exact hc.sock hj
    · rw [Pipe.put_conn_other] at hj ⊢
      exact h.sock i.other hj

theorem mem_of_mem_pop {f g : TcpFrame} {rest : List TcpFrame} {j : Side} (hf : p.flight i = f :: rest)
    (hg : g ∈ (p.pop i rest).flight j) : g ∈ p.flight j := by
  obtain rfl | rfl := Side.cases i j
  · rw [Pipe.pop_flight_self] at hg
    rw [hf]
    exact List.mem_cons_of_mem _ hg
  · rw [Pipe.pop_flight_other] at hg
    exact hg

theorem Pipe.Life.pop (h : p.Life cfg) {f : TcpFrame} {rest : List TcpFrame}
    (hf : p.flight i = f :: rest) :
    (p.pop i rest).Life cfg ∧ (i = .host → (p.pop i rest).NoOpen) := by
  have hno : i = .host → (p.pop i rest).NoOpen := by
    rintro rfl g hg
    rw [Pipe.pop_flight_self] at hg
    refine h.first g ?_
    rw [hf]
    exact hg
  refine ⟨⟨⟨h.conn, fun j g hg => h.flight j g (mem_of_mem_pop hf hg)⟩, h.idle, ?_, ?_, ?_, ?_, h.gone, h.sock⟩, hno⟩
  · intro hn
    have := h.accepted_of_flight (show p.flight i ≠ [] by simp [hf])
    rw [Pipe.pop_accepted, this] at hn
    cases hn
  · intro g hg
    cases i with
    | host =>
      rw [Pipe.pop_flight_self] at hg
      refine h.first g ?_
      rw [hf]
      exact List.mem_of_mem_tail hg
    | client => exact h.first g hg
  · intro hn
    cases i with
    | host => exact absurd (hno rfl) hn
    | client =>
      have := (h.opening hn).2.1
      simp [hf] at this
  · exact fun j g hg => h.fin j g (mem_of_mem_pop hf hg)

theorem Pipe.Life.noOpen_of_gone (h : p.Life cfg) (hg : (p.conn i).peerGone = true) : p.NoOpen := by
  by_contra hn
  obtain ⟨h1, -, h3⟩ := h.opening hn
  cases i with
  | client => simp [hg] at h3
  | host =>
    have := (h.idle .host h1).peerGone
    simp [hg] at this

theorem Evolves.of_same (h : p.Life cfg) {c : TTTunnelConn} (hu : c.used = (p.conn i).used)
    (hfn : c.fn = (p.conn i).fn) (hp : c.portIdx = (p.conn i).portIdx)
    (hc : c.connid = (p.conn i).connid) (hs : c.sock = (p.conn i).sock)
    (hg : c.peerGone = (p.conn i).peerGone) (hi : (p.conn i).used = false → c = p.conn i) :
    Evolves p i c where
  used h := hu ▸ h
  fn _ := hfn
  portIdx _ := hp
  connid _ := hc
  idle hn := by
    rw [hu] at hn
    rw [hi hn]
    exact h.idle i hn
  gone hg' := by
    rw [hg] at hg'
    exact ⟨h.gone i hg', h.noOpen_of_gone hg'⟩
  sock hc' := by
    rw [hu] at hc'
    rw [hg, hs]
    exact h.sock i hc'

theorem Evolves.refl (h : p.Life cfg) (i : Side) : Evolves p i (p.conn i) :=
  .of_same h rfl rfl rfl rfl rfl rfl fun _ => rfl

theorem Evolves.of_used (h : p.Life cfg) {c : TTTunnelConn} (hu : (p.conn i).used = true)
    (hs : c.used = (p.conn i).used ∧ c.fn = (p.conn i).fn ∧ c.portIdx = (p.conn i).portIdx ∧
      c.connid = (p.conn i).connid ∧ c.sock = (p.conn i).sock ∧ c.peerGone = (p.conn i).peerGone) :
    Evolves p i c :=
  .of_same h hs.1 hs.2.1 hs.2.2.1 hs.2.2.2.1 hs.2.2.2.2.1 hs.2.2.2.2.2 fun hn => by simp [hu] at hn

theorem Ctl.mem {f g : TcpFrame} {out gone : List TcpFrame} (h : Ctl f out gone) (hg : g ∈ out) :
    g = f := by
  obtain ⟨rfl, -⟩ | ⟨rfl, -⟩ := h
  · exact List.mem_singleton.mp hg
  · cases hg

theorem Sends.nil {c : TTTunnelConn} : Sends cfg i c p [] := by
  intro f hf
  cases hf

theorem Sends.ctl {c : TTTunnelConn} {op : TTTcpOp} {payload : Bytes} {out gone : List TcpFrame}
    (hctl : Ctl ⟨cfg.portIdx, cfg.connid, op, payload⟩ out gone) (hop : op ≠ .open)
    (hfin : op = .fin → c.used = false) (hno : i = .host → p.NoOpen) : Sends cfg i c p out := by
  intro f hf
  obtain rfl := hctl.mem hf
  exact ⟨⟨rfl, rfl⟩, hop, hfin, hno⟩

theorem Stored.same {c c₁ : TTTunnelConn} {b wr : Bytes} (h : Stored K i c b c₁ wr) :
    c₁.used = c.used ∧ c₁.fn = c.fn ∧ c₁.portIdx = c.portIdx ∧ c₁.connid = c.connid ∧
      c₁.sock = c.sock ∧ c₁.peerGone = c.peerGone ∧ c₁.ackDue = c.ackDue ∧ c₁.unacked = c.unacked ∧
      c₁.outbuf = c.outbuf := by
  cases h with
  | pend =>
    unfold connPend
    split_ifs <;> simp
  | write n => simp
  | nowhere => simp

theorem Credited.same {c c' : TTTunnelConn} {out gone : List TcpFrame} (h : Credited c c' out gone) :
    c'.used = c.used ∧ c'.fn = c.fn ∧ c'.portIdx = c.portIdx ∧ c'.connid = c.connid ∧
      c'.sock = c.sock ∧ c'.peerGone = c.peerGone ∧ c'.unacked = c.unacked ∧ c'.outbuf = c.outbuf ∧
      c'.pend = c.pend := by
  cases h <;> simp

structure Opened (cfg : LinkCfg) (i : Side) (c : TTTunnelConn) : Prop where
  used : c.used = true
  fn : c.fn = cfg.fn i
  portIdx : c.portIdx = cfg.portIdx
  connid : c.connid = cfg.connid
  sock : c.sock.isSome = true
  peerGone : c.peerGone = false
  unacked : c.unacked = 0
  ackDue : c.ackDue = 0

theorem Pipe.Life.openHost (h : p.Life cfg) {f : TcpFrame} {rest : List TcpFrame}
    (hf : p.flight .host = f :: rest) (hop : f.op = .open) {c : TTTunnelConn}
    (hc : Opened cfg .host c) {out gone : List TcpFrame} {rd wr : Bytes}
    (hout : ∀ g ∈ out, (g.portIdx = cfg.portIdx ∧ g.connid = cfg.connid) ∧ g.op ≠ .fin) :
    ((p.pop .host rest).put .host c out gone rd wr).Life cfg := by
  obtain ⟨hq, hno⟩ := h.pop hf
  obtain ⟨-, hcl, hgone⟩ := h.opening fun hn => hn f (by simp [hf]) hop
  have hacc := h.accepted_of_flight (show p.flight .host ≠ [] by simp [hf])
  have hclient : ((p.pop .host rest).put .host c out gone rd wr).flight .client = out := by
    rw [show Side.client = Side.host.other from rfl, Pipe.put_flight_other]
    change p.flight .client ++ out = out
    rw [hcl, List.nil_append]
  refine ⟨⟨?_, ?_⟩, ?_, ?_, ?_, ?_, ?_, ?_, ?_⟩
  · intro j hj
    cases j with
    | client => exact h.conn .client hj
    | host =>
      rw [Pipe.put_conn_self]
      exact ⟨hc.fn, hc.portIdx, hc.connid⟩
  · intro j g hg
    cases j with
    | client =>
      rw [hclient] at hg
      exact (hout g hg).1
    | host =>
      rw [Pipe.put_flight_self] at hg
      exact hq.flight .host g hg
  · intro j hj
    cases j with
    | client => exact h.idle .client hj
    | host => simp [hc.used] at hj
  · intro hn
    rw [Pipe.put_accepted, Pipe.pop_accepted, hacc] at hn
    cases hn
  · intro g hg
    rw [Pipe.put_flight_self] at hg
    exact hq.first g hg
  · intro hn
    refine absurd (fun g hg => ?_) hn
    rw [Pipe.put_flight_self] at hg
    exact hno rfl g hg
  · intro j g hg hfin
    cases j with
    | client =>
      rw [hclient] at hg
      exact absurd hfin (hout g hg).2
    | host =>
      rw [Pipe.put_flight_self] at hg
      exact hq.fin .host g hg hfin
  · intro j hg
    cases j with
    | client =>
      change (p.conn .client).peerGone = true at hg
      simp [hgone] at hg
    | host => simp [hc.peerGone] at hg
  · intro j hj
    cases j with
    | client => exact h.sock .client hj
    | host =>
      rw [Pipe.put_conn_self]
      exact Or.inr hc.sock

theorem Pipe.Life.openClient (h : p.Life cfg) (hacc : p.accepted = false) {c : TTTunnelConn}
    (hc : Opened cfg .client c) {out gone : List TcpFrame}
    (hctl : Ctl ⟨cfg.portIdx, cfg.connid, .open, []⟩ out gone) :
    Pipe.Life cfg { p.put .client c out gone [] [] with accepted := true } := by
  obtain ⟨hunused, hfl⟩ := h.fresh hacc
  have hflight : ∀ j, ∀ g ∈ (p.put .client c out gone [] []).flight j,
      g = ⟨cfg.portIdx, cfg.connid, .open, []⟩ := by
    intro j g hg
    cases j with
    | client =>
      rw [Pipe.put_flight_self, hfl] at hg
      cases hg
    | host =>
      rw [show Side.host = Side.client.other from rfl, Pipe.put_flight_other, hfl, List.nil_append] at hg
      exact hctl.mem hg
  refine ⟨⟨?_, ?_⟩, ?_, ?_, ?_, ?_, ?_, ?_, ?_⟩
  · intro j hj
    cases j with
    | client => exact ⟨hc.fn, hc.portIdx, hc.connid⟩
    | host => exact h.conn .host hj
  · intro j g hg
    rw [hflight j g hg]
    exact ⟨rfl, rfl⟩
  · intro j hj
    cases j with
    | client =>
      change c.used = false at hj
      simp [hc.used] at hj
    | host => exact h.idle .host hj
  · intro hn
    cases hn
  · intro g hg
    change g ∈ (p.flight .host ++ out).tail at hg
    rw [hfl, List.nil_append] at hg
    obtain ⟨rfl, -⟩ | ⟨rfl, -⟩ := hctl
    · cases hg
    · cases hg
  · intro _
    exact ⟨hunused .host, hfl .client, hc.peerGone⟩
  · intro j g hg hfin
    rw [hflight j g hg] at hfin
    cases hfin
  · intro j hg
    cases j with
    | client =>
      change c.peerGone = true at hg
      simp [hc.peerGone] at hg
    | host =>
      change (p.conn .host).peerGone = true at hg
      simp [(h.idle .host (hunused .host)).peerGone] at hg
  · intro j hj
    cases j with
    | client => exact Or.inr hc.sock
    | host => exact h.sock .host hj

theorem Rx.life (h : p.Life cfg) {f : TcpFrame} {rest : List TcpFrame} (hf : p.flight i = f :: rest)
    {c' : TTTunnelConn} {out gone : List TcpFrame} {wr : Bytes}
    (hr : Rx cfg K i (p.conn i) f c' out gone wr) :
    ((p.pop i rest).put i c' out gone [] wr).Life cfg := by
  obtain ⟨hq, hno⟩ := h.pop hf
  have hacc : (p.pop i rest).accepted = true := h.accepted_of_flight (show p.flight i ≠ [] by simp [hf])
  cases hr with
  | unused => exact hq.put hacc (Evolves.refl hq i) Sends.nil
  | ignored => exact hq.put hacc (Evolves.refl hq i) Sends.nil
  | closed => exact hq.put hacc (Evolves.refl hq i) Sends.nil
  | openFail => exact hq.put hacc (Evolves.free ..) Sends.nil
  | refusedOpen hi hu hop hc hctl =>
    refine hq.put hacc ?_ (Sends.ctl hctl (by decide) (fun h => by cases h) hno)
    obtain rfl | ⟨c₀, rfl⟩ := hc
    · exact Evolves.refl hq i
    · exact Evolves.free ..
  | data hu hop hs hcr =>
    obtain ⟨s1, s2, s3, s4, s5, s6, -⟩ := hs.same
    obtain ⟨c1, c2, c3, c4, c5, c6, -⟩ := hcr.same
    refine hq.put hacc (Evolves.of_used hq hu ⟨c1.trans s1, c2.trans s2, c3.trans s3, c4.trans s4,
      c5.trans s5, c6.trans s6⟩) ?_
    obtain ⟨-, hp, hcid⟩ := h.conn i hu
    cases hcr with
    | count => exact Sends.nil
    | batch hb hctl =>
      rw [TTTunnelConn.frame, s3, s4, hp, hcid] at hctl
      exact Sends.ctl hctl (by decide) (fun h => by cases h) hno
  | ack hu hop =>
    refine hq.put hacc ?_ Sends.nil
    unfold connTakeCredit
    dsimp only
    split_ifs
    · exact Evolves.free ..
    · exact Evolves.of_used hq hu ⟨rfl, rfl, rfl, rfl, rfl, rfl⟩
  | fin hu hop hset =>
    refine hq.put hacc ?_ Sends.nil
    unfold connMarkPeerGone
    split_ifs
    · exact Evolves.free ..
    · refine ⟨fun _ => hu, fun _ => rfl, fun _ => rfl, fun _ => rfl, ?_, ?_, fun _ => Or.inl rfl⟩
      · intro hn
        simp [hu] at hn
      · intro _
        refine ⟨h.fin i f (by simp [hf]) hop, ?_⟩
        cases i with
        | host => exact hno rfl
        | client =>
          by_contra hn
          have := (h.opening hn).2.1
          simp [hf] at this
  | opened s b hi hu hop hout =>
    subst hi
    refine h.openHost hf hop ⟨rfl, rfl, rfl, rfl, rfl, rfl, rfl, rfl⟩ ?_
    intro g hg
    cases b with
    | true =>
      rw [hout.1] at hg
      cases hg
    | false =>
      obtain rfl := Ctl.mem hout hg
      exact ⟨⟨rfl, rfl⟩, fun h => by cases h⟩

theorem Move.life (h : p.Life cfg) (hm : Move cfg K p p') : p'.Life cfg := by
  cases hm with
  | accept fd hacc hctl =>
    exact h.openClient hacc ⟨rfl, rfl, rfl, rfl, rfl, rfl, rfl, rfl⟩ hctl
  | sent i k hs ho hu hk =>
    refine h.put (h.accepted hs.1) (Evolves.of_used h hs.1 ⟨rfl, rfl, rfl, rfl, rfl, rfl⟩) ?_
    intro f hf
    obtain rfl := List.mem_singleton.mp hf
    refine ⟨(h.conn i hs.1).2, fun h => (by cases h), fun h => (by cases h), ?_⟩
    rintro rfl
    exact h.noOpen_of_used hs.1
  | swallowed i k hn hs ho hu hk =>
    exact h.put (h.accepted hs.1) (Evolves.of_used h hs.1 ⟨rfl, rfl, rfl, rfl, rfl, rfl⟩) Sends.nil
  | read i b hs =>
    exact h.put (h.accepted hs.1) (Evolves.of_used h hs.1 ⟨rfl, rfl, rfl, rfl, rfl, rfl⟩) Sends.nil
  | close i b hs hctl =>
    refine h.put (h.accepted hs.1) (Evolves.free ..) (Sends.ctl hctl (by decide) (fun _ => rfl) ?_)
    rintro rfl
    exact h.noOpen_of_used hs.1
  | connected n hs hc hw hctl =>
    exact h.put (h.accepted hs.1) (Evolves.of_used h hs.1 ⟨rfl, rfl, rfl, rfl, rfl, rfl⟩)
      (Sends.ctl hctl (by decide) (fun h => by cases h) fun _ => h.noOpen_of_used hs.1)
  | connectFailed hs hc hctl =>
    exact h.put (h.accepted hs.1) (Evolves.free ..)
      (Sends.ctl hctl (by decide) (fun h => by cases h) fun _ => h.noOpen_of_used hs.1)
  | rx i f rest hf hr => exact hr.life h hf

theorem Moves.life (h : p.Life cfg) (hm : Moves cfg K p p') : p'.Life cfg := by
  induction hm with
  | refl => exact h
  | tail _ hm ih => exact hm.life ih

theorem life_start (cfg : LinkCfg) (tun : Side → Option (ℕ → TTSession)) :
    (Link.start tun).pipe.Life cfg where
  conn i h := by cases h
  flight i f hf := by cases hf
  idle i _ := idle_zero
  fresh _ := ⟨fun _ => rfl, fun _ => rfl⟩
  first f hf := by cases hf
  opening hn := absurd (fun f hf => by cases hf) hn
  fin i f hf := by cases hf
  gone i h := by cases h
  sock i h := by cases h

/-- Every packet that is delivered reaches the tunnel layer as it was built. -/
def Intact (C : Crypto) (cfg : LinkCfg) (w : Link) (op : LinkOp) : Prop :=
  ∀ i, op = .deliver i → w.Opens C cfg i

instance (C : Crypto) (cfg : LinkCfg) (w : Link) (op : LinkOp) : Decidable (Intact C cfg w op) :=
  match op with
  | .deliver i => decidable_of_iff (w.Opens C cfg i)
      ⟨fun h _ hj => LinkOp.deliver.inj hj ▸ h, fun h => h i rfl⟩
  | .accept _ => isTrue fun _ h => LinkOp.noConfusion h
  | .poll _ => isTrue fun _ h => LinkOp.noConfusion h
  | .retry _ => isTrue fun _ h => LinkOp.noConfusion h
  | .session _ _ => isTrue fun _ h => LinkOp.noConfusion h

theorem linkStep_life {C : Crypto} {w : Link} (h : w.pipe.Life cfg) {op : LinkOp}
    (ho : Intact C cfg w op) : (linkStep C cfg w op).pipe.Life cfg :=
  Moves.life h (linkStep_moves h.toWf op ho)

end

end TkTox
