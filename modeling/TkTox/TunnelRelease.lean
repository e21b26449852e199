import TkTox.TunnelCredit

/-!
When the slots of a connection are released. The side that closes sends its FIN, frees its slot
and returns no more credit, so a FIN that finds DATA unacknowledged leaves the other slot marked
for good. In a run where no FIN does, and where toxcore takes every OPEN, OPEN_FAIL and FIN, a
freed slot means a frame still on its way or a free slot at the other end.
-/

namespace TkTox

def TcpFrame.Closing (f : TcpFrame) : Prop := f.op = .fin ∨ f.op = .openFail

structure Pipe.Release (p : Pipe) : Prop where
  client : (p.conn .client).used = true → (p.conn .host).used = false →
    ¬p.NoOpen ∨ ∃ f ∈ p.flight .client, f.Closing
  host : ((p.conn .host).used = true ∨ ¬p.NoOpen) → (p.conn .client).used = false →
    ∃ f ∈ p.flight .host, f.op = .fin
  failed : ∀ f ∈ p.flight .client, f.op = .openFail → (p.conn .host).used = false ∧ p.NoOpen
  stay : ∀ i, (p.conn i).peerGone = false

def Pipe.NoLostCtl (p : Pipe) : Prop :=
  ∀ i, ∀ f ∈ p.lost i, f.op ≠ .open ∧ f.op ≠ .openFail ∧ f.op ≠ .fin

section

variable {cfg : LinkCfg} {K : MoveCond} {p p' : Pipe} {i : Side}

theorem Ctl.eq_of_kept {f : TcpFrame} {out gone : List TcpFrame} (h : Ctl f out gone)
    (hg : f ∉ gone) : out = [f] := by
  obtain ⟨rfl, -⟩ | ⟨-, rfl⟩ := h
  · rfl
  · exact absurd (List.mem_singleton_self f) hg

theorem mem_flight_put {c : TTTunnelConn} {out gone : List TcpFrame} {rd wr : Bytes} {f : TcpFrame}
    {j : Side} (h : f ∈ p.flight j) : f ∈ (p.put i c out gone rd wr).flight j := by
  obtain rfl | rfl := Side.cases i j
  · rw [Pipe.put_flight_self]
    exact h
  · rw [Pipe.put_flight_other]
    exact List.mem_append_left _ h

theorem Pipe.Release.put (h : p.Release) {c : TTTunnelConn} {out gone : List TcpFrame} {rd wr : Bytes}
    (hu : c.used = (p.conn i).used) (hg : c.peerGone = false)
    (ho : ∀ f ∈ out, f.op ≠ .open ∧ f.op ≠ .openFail) : (p.put i c out gone rd wr).Release := by
  have hused : ∀ j, ((p.put i c out gone rd wr).conn j).used = (p.conn j).used := by
    intro j
    obtain rfl | rfl := Side.cases i j
    · rw [Pipe.put_conn_self, hu]
    · rw [Pipe.put_conn_other]
  have hno : ¬(p.put i c out gone rd wr).NoOpen → ¬p.NoOpen := fun hn hp =>
    hn (noOpen_put hp fun f hf => (ho f hf).1)
  have hopen : ¬p.NoOpen → ¬(p.put i c out gone rd wr).NoOpen := fun hn hp =>
    hn fun f hf => hp f (mem_flight_put hf)
  refine ⟨?_, ?_, ?_, ?_⟩
  · intro h1 h2
    rw [hused] at h1 h2
    refine (h.client h1 h2).imp hopen ?_
    rintro ⟨f, hf, hc⟩
    exact ⟨f, mem_flight_put hf, hc⟩
  · intro h1 h2
    rw [hused] at h1 h2
    obtain ⟨f, hf, hc⟩ := h.host (h1.imp_right hno) h2
    exact ⟨f, mem_flight_put hf, hc⟩
  · intro f hf hop
    have hf' : f ∈ p.flight .client := by
      cases i with
      | client =>
        rw [Pipe.put_flight_self] at hf
        exact hf
      | host =>
        rw [show Side.client = Side.host.other from rfl, Pipe.put_flight_other, List.mem_append] at hf
        exact hf.resolve_right fun h => (ho f h).2 hop
    rw [hused]
    exact ⟨(h.failed f hf' hop).1, noOpen_put (h.failed f hf' hop).2 fun f hf => (ho f hf).1⟩
  · intro j
    obtain rfl | rfl := Side.cases i j
    · rw [Pipe.put_conn_self]
      exact hg
    · rw [Pipe.put_conn_other]
      exact h.stay i.other

theorem release_free {c : TTTunnelConn} {out gone : List TcpFrame} {rd wr : Bytes}
    (hc : c.used = false) (hg : c.peerGone = false) (hstay : (p.conn i.other).peerGone = false)
    (hfailed : ∀ f ∈ p.flight .client, f.op = .openFail → (p.conn .host).used = false ∧ p.NoOpen)
    (ho : ∀ f ∈ out, f.op ≠ .open)
    (hclient : i = .client → ((p.conn .host).used = true ∨ ¬p.NoOpen) →
      ∃ f ∈ p.flight .host ++ out, f.op = .fin)
    (hhost : i = .host → p.NoOpen ∧ ((p.conn .client).used = true →
      ∃ f ∈ p.flight .client ++ out, f.Closing)) : (p.put i c out gone rd wr).Release := by
  cases i with
  | client =>
    have hfl : (p.put .client c out gone rd wr).flight .host = p.flight .host ++ out :=
      Pipe.put_flight_other ..
    have hconn : (p.put .client c out gone rd wr).conn .host = p.conn .host := Pipe.put_conn_other ..
    refine ⟨?_, ?_, ?_, ?_⟩
    · intro h1
      rw [Pipe.put_conn_self, hc] at h1
      cases h1
    · intro h1 _
      rw [hconn] at h1
      rw [hfl]
      exact hclient rfl (h1.imp_right fun hn hp => hn (noOpen_put hp ho))
    · intro f hf hop
      rw [Pipe.put_flight_self] at hf
      rw [hconn]
      exact ⟨(hfailed f hf hop).1, noOpen_put (hfailed f hf hop).2 ho⟩
    · intro j
      cases j with
      | client =>
        rw [Pipe.put_conn_self]
        exact hg
      | host =>
        rw [hconn]
        exact hstay
  | host =>
    obtain ⟨hno, hclose⟩ := hhost rfl
    have hfl : (p.put .host c out gone rd wr).flight .client = p.flight .client ++ out :=
      Pipe.put_flight_other ..
    have hconn : (p.put .host c out gone rd wr).conn .client = p.conn .client := Pipe.put_conn_other ..
    have hno' : (p.put .host c out gone rd wr).NoOpen := noOpen_put hno ho
    refine ⟨?_, ?_, ?_, ?_⟩
    · intro h1 _
      rw [hconn] at h1
      rw [hfl]
      exact Or.inr (hclose h1)
    · intro h1
      rw [Pipe.put_conn_self, hc] at h1
      exact absurd hno' (h1.resolve_left (by simp))
    · intro f hf hop
      rw [Pipe.put_conn_self]
      exact ⟨hc, hno'⟩
    · intro j
      cases j with
      | client =>
        rw [hconn]
        exact hstay
      | host =>
        rw [Pipe.put_conn_self]
        exact hg

theorem Pipe.Release.pop (h : p.Release) {f : TcpFrame} {rest : List TcpFrame}
    (hf : p.flight i = f :: rest) (hclient : i = .client → ¬f.Closing)
    (hhost : i = .host → f.op ≠ .fin ∧ f.op ≠ .open) : (p.pop i rest).Release := by
  cases i with
  | client =>
    refine ⟨?_, h.host, ?_, h.stay⟩
    · intro h1 h2
      refine (h.client h1 h2).imp_right ?_
      rintro ⟨g, hg, hc⟩
      rw [hf, List.mem_cons] at hg
      obtain rfl | hg := hg
      · exact absurd hc (hclient rfl)
      · exact ⟨g, by rw [Pipe.pop_flight_self]; exact hg, hc⟩
    · intro g hg hop
      rw [Pipe.pop_flight_self] at hg
      exact h.failed g (by rw [hf]; exact List.mem_cons_of_mem _ hg) hop
  | host =>
    have hno : (p.pop .host rest).NoOpen ↔ p.NoOpen := by
      simp only [Pipe.NoOpen, Pipe.pop_flight_self, hf, List.forall_mem_cons]
      exact ⟨fun h => ⟨(hhost rfl).2, h⟩, fun h => h.2⟩
    refine ⟨?_, ?_, ?_, h.stay⟩
    · intro h1 h2
      rw [hno]
      exact h.client h1 h2
    · intro h1 h2
      rw [hno] at h1
      obtain ⟨g, hg, hop⟩ := h.host h1 h2
      rw [hf, List.mem_cons] at hg
      obtain rfl | hg := hg
      · exact absurd hop (hhost rfl).1
      · exact ⟨g, by rw [Pipe.pop_flight_self]; exact hg, hop⟩
    · intro g hg hop
      rw [hno]
      exact h.failed g hg hop

-- the host takes the OPEN, behind which nothing of the client's is in flight but its FIN
theorem Pipe.Release.opened (h : p.Release) (hl : p.Life cfg) {f : TcpFrame} {rest : List TcpFrame}
    (hf : p.flight .host = f :: rest) (hop : f.op = .open) {c : TTTunnelConn} {out gone : List TcpFrame}
    {wr : Bytes} (hu : c.used = true) (hg : c.peerGone = false) (hout : ∀ g ∈ out, g.op ≠ .openFail) :
    ((p.pop .host rest).put .host c out gone [] wr).Release := by
  have hnoOpen : ¬p.NoOpen := fun hn => hn f (by simp [hf]) hop
  obtain ⟨-, hcl, -⟩ := hl.opening hnoOpen
  refine ⟨?_, ?_, ?_, ?_⟩
  · intro _ h2
    rw [Pipe.put_conn_self, hu] at h2
    cases h2
  · intro _ h2
    obtain ⟨g, hg', hgf⟩ := h.host (Or.inr hnoOpen) h2
    rw [hf, List.mem_cons] at hg'
    obtain rfl | hg' := hg'
    · rw [hop] at hgf
      cases hgf
    · refine ⟨g, ?_, hgf⟩
      rw [Pipe.put_flight_self, Pipe.pop_flight_self]
      exact hg'
  · intro g hg' hgop
    change g ∈ p.flight .client ++ out at hg'
    rw [hcl, List.nil_append] at hg'
    exact absurd hgop (hout g hg')
  · intro j
    cases j with
    | client => exact h.stay .client
    | host =>
      rw [Pipe.put_conn_self]
      exact hg

theorem Rx.release (hl : p.Life cfg) (h : p.Release) {f : TcpFrame} {rest : List TcpFrame}
    (hf : p.flight i = f :: rest) {c' : TTTunnelConn} {out gone : List TcpFrame} {wr : Bytes}
    (hr : Rx cfg K i (p.conn i) f c' out gone wr) (hset : K.settled)
    (hg : ∀ g ∈ gone, g.op ≠ .open ∧ g.op ≠ .openFail ∧ g.op ≠ .fin) :
    ((p.pop i rest).put i c' out gone [] wr).Release := by
  obtain ⟨hq, hno⟩ := hl.pop hf
  have hmem : f ∈ p.flight i := by simp [hf]
  have hsub : p.NoOpen → (p.pop i rest).NoOpen := fun hn g hg => hn g (mem_of_mem_pop hf hg)
  have hfailed : ∀ g ∈ (p.pop i rest).flight .client, g.op = .openFail →
      ((p.pop i rest).conn .host).used = false ∧ (p.pop i rest).NoOpen := by
    intro g hg hop
    obtain ⟨h1, h2⟩ := h.failed g (mem_of_mem_pop hf hg) hop
    exact ⟨h1, hsub h2⟩
  cases hr with
  | unused hu hop =>
    refine release_free hu (h.stay i) (h.stay i.other) hfailed (by simp) ?_ ?_
    · rintro rfl hh
      rw [List.append_nil]
      exact h.host (hh.imp_right fun hn hp => hn (hsub hp)) hu
    · rintro rfl
      refine ⟨hno rfl, fun hc => ?_⟩
      rw [List.append_nil]
      refine (h.client hc hu).resolve_left ?_
      rw [not_not, Pipe.NoOpen, hf, List.forall_mem_cons]
      have hrest := hno rfl
      rw [Pipe.NoOpen, Pipe.pop_flight_self] at hrest
      exact ⟨hop rfl, hrest⟩
  | ignored hu hop =>
    refine (h.pop hf ?_ ?_).put rfl (h.stay i) (by simp)
    · rintro rfl
      obtain h | h | ⟨-, h⟩ := hop
      · simp [TcpFrame.Closing, h]
      · simp [TcpFrame.Closing, h]
      · cases h
    · rintro rfl
      have hopen := hl.noOpen_of_used hu f hmem
      refine ⟨?_, hopen⟩
      obtain h | h | ⟨h, -⟩ := hop <;> simp [h]
  | closed hi hu hop hs =>
    have hgone := h.stay i
    have := (hl.sock i hu).resolve_left (by simp [hgone])
    simp [hs] at this
  | openFail hi hu hop =>
    subst hi
    obtain ⟨h1, h2⟩ := h.failed f hmem hop
    refine release_free rfl rfl (h.stay .host) hfailed (by simp) ?_ (fun h => by cases h)
    intro _ hh
    exact absurd (hsub h2) (hh.resolve_left (by simp [h1]))
  | refusedOpen hi hu hop hc hctl =>
    subst hi
    have hout := hctl.eq_of_kept fun hm => (hg _ hm).2.1 rfl
    have hc' : c'.used = false ∧ c'.peerGone = false := by
      obtain rfl | ⟨c₀, rfl⟩ := hc
      · exact ⟨hu, h.stay .host⟩
      · exact ⟨rfl, rfl⟩
    refine release_free hc'.1 hc'.2 (h.stay .client) hfailed ?_ (fun h => by cases h) ?_
    · intro g hg
      rw [hctl.mem hg]
      exact fun h => by cases h
    · intro _
      refine ⟨hno rfl, fun _ => ⟨_, List.mem_append_right _ (by rw [hout]; exact List.mem_singleton_self _), ?_⟩⟩
      exact Or.inr rfl
  | data hu hop hs hcr =>
    refine (h.pop hf ?_ ?_).put (hcr.same.1.trans hs.same.1) ?_ ?_
    · intro _
      simp [TcpFrame.Closing, hop]
    · intro _
      simp [hop]
    · rw [hcr.same.2.2.2.2.2.1, hs.same.2.2.2.2.2.1]
      exact h.stay i
    · intro g hg
      simp [hcr.op_eq hg]
  | ack hu hop =>
    have hgone := h.stay i
    have hkeep : connTakeCredit (p.conn i) f.payload =
        { p.conn i with unacked := (p.conn i).unacked - creditOf f.payload } := by
      simp [connTakeCredit, hgone]
    rw [hkeep]
    refine (h.pop hf ?_ ?_).put rfl hgone (by simp)
    · intro _
      simp [TcpFrame.Closing, hop]
    · intro _
      simp [hop]
  | fin hu hop hz =>
    have hother := hl.fin i f hmem hop
    have hfree : connMarkPeerGone (p.conn i) = connFree (p.conn i) := by
      rw [connMarkPeerGone, if_pos (hz hset)]
    rw [hfree]
    refine release_free rfl rfl (h.stay i.other) hfailed (by simp) ?_ ?_
    · rintro rfl hh
      have hn : p.NoOpen := by
        by_contra hn
        rw [(hl.opening hn).2.1] at hmem
        cases hmem
      change (p.conn .host).used = false at hother
      exact absurd (hsub hn) (hh.resolve_left (by simp [hother]))
    · rintro rfl
      refine ⟨hno rfl, fun hc => ?_⟩
      change (p.conn .client).used = false at hother
      simp [hother] at hc
  | opened s b hi hu hop hout =>
    subst hi
    refine h.opened hl hf hop rfl rfl ?_
    intro g hg'
    cases b with
    | true =>
      rw [hout.1] at hg'
      cases hg'
    | false =>
      rw [Ctl.mem hout hg']
      exact fun h => by cases h

theorem Move.release (hl : p.Life cfg) (h : p.Release) (hset : K.settled) (hm : Move cfg K p p')
    (hlost : p'.NoLostCtl) : p'.Release := by
  cases hm with
  | @accept out gone fd hacc hctl =>
    obtain ⟨hunused, hfl⟩ := hl.fresh hacc
    have hlost' : ∀ g ∈ gone, g.op ≠ .open := fun g hg => (hlost .client g (List.mem_append_right _ hg)).1
    have hout := hctl.eq_of_kept fun hm => hlost' _ hm rfl
    refine ⟨?_, ?_, ?_, ?_⟩
    · intro _ _
      refine Or.inl fun hn => ?_
      refine hn ⟨cfg.portIdx, cfg.connid, .open, []⟩ ?_ rfl
      change _ ∈ p.flight .host ++ out
      rw [hout]
      simp
    · intro _ h2
      cases h2
    · intro f hf
      change f ∈ p.flight .client at hf
      rw [hfl] at hf
      cases hf
    · intro i
      cases i with
      | client => rfl
      | host => exact h.stay .host
  | sent i k hs ho hu hk =>
    refine h.put rfl (h.stay i) ?_
    intro f hf
    rw [List.mem_singleton.mp hf]
    simp [TTTunnelConn.frame]
  | swallowed i k hn hs ho hu hk => exact h.put rfl (h.stay i) (by simp)
  | read i b hs => exact h.put rfl (h.stay i) (by simp)
  | @close out gone i b hs hctl =>
    have hkept : ∀ g ∈ gone, g.op ≠ .fin := fun g hg => (hlost i g (by simp [hg])).2.2
    have hout := hctl.eq_of_kept fun hm => hkept _ hm rfl
    have hmem : (⟨cfg.portIdx, cfg.connid, .fin, []⟩ : TcpFrame) ∈ out := by simp [hout]
    refine release_free rfl rfl (h.stay i.other) h.failed ?_ ?_ ?_
    · intro f hf
      rw [hctl.mem hf]
      exact fun h => by cases h
    · intro _ _
      exact ⟨_, List.mem_append_right _ hmem, rfl⟩
    · rintro rfl
      exact ⟨hl.noOpen_of_used hs.1, fun _ => ⟨_, List.mem_append_right _ hmem, Or.inl rfl⟩⟩
  | connected n hu hc hw hctl =>
    refine h.put rfl (h.stay .host) ?_
    intro f hf
    simp [hctl.mem hf]
  | @connectFailed out gone hs hc hctl =>
    have hkept : ∀ g ∈ gone, g.op ≠ .openFail := fun g hg => (hlost .host g (by simp [hg])).2.1
    have hout := hctl.eq_of_kept fun hm => hkept _ hm rfl
    have hmem : (⟨cfg.portIdx, cfg.connid, .openFail, []⟩ : TcpFrame) ∈ out := by simp [hout]
    refine release_free rfl rfl (h.stay .client) h.failed ?_ (fun h => by cases h) ?_
    · intro f hf
      rw [hctl.mem hf]
      exact fun h => by cases h
    · intro _
      exact ⟨hl.noOpen_of_used hs.1, fun _ => ⟨_, List.mem_append_right _ hmem, Or.inr rfl⟩⟩
  | rx i f rest hf hr =>
    refine hr.release hl h hf hset ?_
    intro g hg
    exact hlost i g (by simp [hg])

theorem Moves.release (hl : p.Life cfg) (h : p.Release) (hset : K.settled) (hm : Moves cfg K p p')
    (hlost : p'.NoLostCtl) : p'.Release := by
  induction hm with
  | refl => exact h
  | tail hms hm ih =>
    exact hm.release (Moves.life hl hms) (ih fun i f hf => hlost i f (hm.lost_sub i f hf)) hset hlost

end

section

variable {C : Crypto} {cfg : LinkCfg} {w : Link}

def TunnelEffect.refusedClose : TunnelEffect → Bool
  | .refused _ f => f.op = .open || f.op = .openFail || f.op = .fin
  | _ => false

/-- A FIN that is about to be received finds no DATA frame of the receiver unacknowledged. -/
def Link.FinSettled (w : Link) : LinkOp → Prop
  | .deliver i => ∀ p ∈ (w.chan i).head?, ∀ f ∈ p.frame, (w.conn i).used = true → f.op = .fin →
      (w.conn i).unacked = 0
  | _ => True

instance (w : Link) (op : LinkOp) : Decidable (w.FinSettled op) :=
  match op with
  | .deliver i => inferInstanceAs (Decidable (∀ p ∈ (w.chan i).head?, ∀ f ∈ p.frame,
      (w.conn i).used = true → f.op = .fin → (w.conn i).unacked = 0))
  | .accept _ | .poll _ | .retry _ | .session _ _ => isTrue trivial

/-- A step after which every slot still has someone to free it. -/
def ReleaseStep (C : Crypto) (cfg : LinkCfg) (w : Link) (op : LinkOp) : Prop :=
  Intact C cfg w op ∧ w.FinSettled op ∧
    ∀ i, ∀ e ∈ (linkStep C cfg w op).log i, e.refusedClose = false

instance (C : Crypto) (cfg : LinkCfg) (w : Link) (op : LinkOp) : Decidable (ReleaseStep C cfg w op) :=
  inferInstanceAs (Decidable (_ ∧ _ ∧ ∀ i, ∀ e ∈ (linkStep C cfg w op).log i, e.refusedClose = false))

theorem pipe_noLostCtl (h : ∀ i, ∀ e ∈ w.log i, e.refusedClose = false) : w.pipe.NoLostCtl := by
  intro i f hf
  obtain ⟨e, he, hef⟩ := List.mem_filterMap.mp hf
  cases e with
  | refused fn g =>
    simp only [TunnelEffect.lostCtl] at hef
    split_ifs at hef
    cases hef
    have := h i _ he
    simpa [TunnelEffect.refusedClose, and_assoc] using this
  | _ => cases hef

theorem release_start (tun : Side → Option (ℕ → TTSession)) : (Link.start tun).pipe.Release where
  client h := by cases h
  host h := by
    refine absurd (h.resolve_left fun h => by cases h) (not_not.mpr ?_)
    intro f hf
    cases hf
  failed f hf := by cases hf
  stay _ := rfl

theorem linkStep_release (hl : w.pipe.Life cfg) (h : w.pipe.Release) {op : LinkOp}
    (ho : ReleaseStep C cfg w op) : (linkStep C cfg w op).pipe.Release := by
  refine Moves.release hl h ?_ (linkStep_moves hl.toWf op ho.1) (pipe_noLostCtl ho.2.2)
  rintro i rfl
  exact ho.2.1

theorem reach_release {tun : Side → Option (ℕ → TTSession)}
    (hr : Machine.Reach (linkStep C cfg) (ReleaseStep C cfg) (Link.start tun) w) :
    w.pipe.Life cfg ∧ w.pipe.Release := by
  induction hr with
  | refl => exact ⟨life_start cfg tun, release_start tun⟩
  | step op _ ho ih => exact ⟨linkStep_life ih.1 ho.1, linkStep_release ih.1 ih.2 ho⟩

/-- Once one slot is free and no frame of the connection is on its way, the other one is free. -/
theorem slots_released {tun : Side → Option (ℕ → TTSession)}
    (hr : Machine.Reach (linkStep C cfg) (ReleaseStep C cfg) (Link.start tun) w) {i : Side}
    (hfree : (w.conn i).used = false) (hquiet : ∀ j, w.frames j = []) :
    (w.conn i.other).used = false := by
  have hinv := reach_release hr
  have hno : w.pipe.NoOpen := by
    intro f hf
    change f ∈ w.frames .host at hf
    rw [hquiet] at hf
    cases hf
  by_contra hu
  have hu' := Bool.eq_true_of_not_eq_false hu
  cases i with
  | client =>
    obtain ⟨f, hf, -⟩ := hinv.2.host (Or.inl hu') hfree
    change f ∈ w.frames .host at hf
    rw [hquiet] at hf
    cases hf
  | host =>
    obtain ⟨f, hf, -⟩ := (hinv.2.client hu' hfree).resolve_left (not_not.mpr hno)
    change f ∈ w.frames .client at hf
    rw [hquiet] at hf
    cases hf

end

namespace Instance

def closingCfg : LinkCfg :=
  { linkCfg with env := fun i => if i = .host then { linkEnv with recv := fun _ => .data [] } else linkEnv }

def closingRun (ops : List LinkOp) : Link :=
  ops.foldl (linkStep crypto closingCfg) (Link.start fun _ => none)

def closedEarly : List LinkOp := [.accept 3, .deliver .host, .poll .host, .deliver .client, .deliver .client]

def crossed : List LinkOp := [.accept 3, .deliver .host, .poll .client, .poll .host, .deliver .host,
  .deliver .client, .deliver .client]

theorem slots_released_closedEarly :
    ((closingRun closedEarly).conn .host).used = false ∧
      ((closingRun closedEarly).conn .client).used = false :=
  ⟨by decide +kernel, slots_released (i := .host) (.run .refl (by decide +kernel)) (by decide +kernel)
    (by decide +kernel)⟩

theorem crossed_not_released :
    Machine.Meets (linkStep crypto closingCfg) (Intact crypto closingCfg) (Link.start fun _ => none) crossed ∧
      (∀ i, ∀ e ∈ (closingRun crossed).log i, e.refusedClose = false ∧ e.refusedAck = false) ∧
      ¬(((closingRun crossed).conn .host).used = false → (∀ j, (closingRun crossed).frames j = []) →
        ((closingRun crossed).conn .client).used = false) := by
  decide +kernel

end Instance

end TkTox
