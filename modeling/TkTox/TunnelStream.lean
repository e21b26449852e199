import TkTox.TunnelRelease

/-!
The byte streams of a connection. What a source socket gave is, in order, what the destination
socket took, what waits for its connect, what is in flight and what waits for the window. Every
stage has a way to drop a slice: a session that is not active swallows a frame, a socket takes
part of one, the connect buffer is full. In a run where none of that happens the bytes taken are
always a prefix of the bytes read.
-/

namespace TkTox

def TcpFrame.bytes (f : TcpFrame) : Bytes := if f.op = .data then f.payload else []

def dataBytes (l : List TcpFrame) : Bytes := l.flatMap TcpFrame.bytes

@[simp] theorem dataBytes_nil : dataBytes [] = [] := rfl

@[simp] theorem dataBytes_append (l m : List TcpFrame) :
    dataBytes (l ++ m) = dataBytes l ++ dataBytes m := by
  simp [dataBytes]

@[simp] theorem dataBytes_cons (f : TcpFrame) (l : List TcpFrame) :
    dataBytes (f :: l) = f.bytes ++ dataBytes l := by
  simp [dataBytes]

theorem TcpFrame.bytes_of_ne {f : TcpFrame} (h : f.op ≠ .data) : f.bytes = [] := if_neg h

theorem Ctl.dataBytes {f : TcpFrame} {out gone : List TcpFrame} (h : Ctl f out gone)
    (hd : f.op ≠ .data) : dataBytes out = [] := by
  obtain ⟨rfl, -⟩ | ⟨rfl, -⟩ := h
  · simp [TcpFrame.bytes_of_ne hd]
  · rfl

def Pipe.Ready (p : Pipe) (i : Side) : Prop := Serving (p.conn i) ∨ (i = .host ∧ ¬p.NoOpen)

structure Pipe.Stream (p : Pipe) : Prop where
  pre : ∀ i, p.wrote i.other <+: p.read i
  whole : ∀ i, p.Ready i.other → ∃ t, ((p.conn i).used = true → t = (p.conn i).outbuf) ∧
    p.read i = p.wrote i.other ++ (p.conn i.other).pend ++ dataBytes (p.flight i.other) ++ t
  pend : ∀ i, (p.conn i).connecting = false → (p.conn i).pend = []
  client : (p.conn .client).connecting = false
  unread : ¬p.NoOpen → p.read .host = [] ∧ p.wrote .host = []
  fresh : p.accepted = false → ∀ i, p.read i = [] ∧ p.wrote i = []

section

variable {cfg : LinkCfg} {K : MoveCond} {p p' : Pipe} {i : Side}

theorem Pipe.Stream.exchange (h : p.Stream) {q : Pipe} {d : Bytes} (hacc : p.accepted = true)
    (hconn : q.conn = p.conn) (hread : q.read = p.read) (hwrote : q.wrote = p.wrote)
    (haccq : q.accepted = p.accepted) (hother : q.flight i.other = p.flight i.other)
    (hd : dataBytes (p.flight i) = d ++ dataBytes (q.flight i)) (hno : p.NoOpen → q.NoOpen)
    {c : TTTunnelConn} {out gone : List TcpFrame} {rd wr : Bytes} (ho : ∀ f ∈ out, f.op ≠ .open)
    -- the source side: what is read goes out or stays buffered
    (hsrc : ∀ t, t <:+ p.read i → ((p.conn i).used = true → t = (p.conn i).outbuf) →
      ∃ t', (c.used = true → t' = c.outbuf) ∧ t ++ rd = dataBytes out ++ t')
    -- the destination side: what is taken off the wire is written or kept
    (hdst : (q.put i c out gone rd wr).Ready i → p.Ready i ∧ (p.conn i).pend ++ d = wr ++ c.pend)
    (hwr : wr = [] ∨ (q.put i c out gone rd wr).Ready i)
    (hpend : c.connecting = false → c.pend = []) (hcl : i = .client → c.connecting = false)
    (hquiet : ¬q.NoOpen → i = .host → rd = [] ∧ wr = []) : (q.put i c out gone rd wr).Stream := by
  have hready : (q.put i c out gone rd wr).Ready i.other → p.Ready i.other := by
    rintro (hs | ⟨hi, hn⟩)
    · rw [Pipe.put_conn_other, hconn] at hs
      exact Or.inl hs
    · exact Or.inr ⟨hi, fun hp => hn (noOpen_put (hno hp) ho)⟩
  have hnoq : ¬(q.put i c out gone rd wr).NoOpen → ¬q.NoOpen := fun hn hq => hn (noOpen_put hq ho)
  have hdest : (q.put i c out gone rd wr).Ready i → ∃ t, ((p.conn i.other).used = true →
      t = (p.conn i.other).outbuf) ∧
      p.read i.other = p.wrote i ++ wr ++ c.pend ++ dataBytes (q.flight i) ++ t := by
    intro hr
    obtain ⟨hp, he⟩ := hdst hr
    obtain ⟨t, ht, hall⟩ := h.whole i.other (by rw [Side.other_other]; exact hp)
    rw [Side.other_other, hd] at hall
    refine ⟨t, ht, ?_⟩
    rw [hall]
    simp only [List.append_assoc]
    rw [← List.append_assoc (p.conn i).pend, he]
    simp only [List.append_assoc]
  refine ⟨?_, ?_, ?_, ?_, ?_, ?_⟩
  · intro j
    obtain rfl | rfl := Side.cases i j
    · rw [Pipe.put_wrote_other, Pipe.put_read_self, hwrote, hread]
      exact (h.pre j).trans (List.prefix_append ..)
    · rw [Side.other_other, Pipe.put_wrote_self, Pipe.put_read_other, hwrote, hread]
      obtain rfl | hr := hwr
      · rw [List.append_nil]
        simpa using h.pre i.other
      · obtain ⟨t, -, hall⟩ := hdest hr
        rw [hall]
        simp only [List.append_assoc, List.prefix_append_right_inj, List.prefix_append]
  · intro j hr
    obtain rfl | rfl := Side.cases i j
    · obtain ⟨t, ht, hall⟩ := h.whole j (hready hr)
      obtain ⟨t', ht', he⟩ := hsrc t (hall ▸ List.suffix_append ..) ht
      refine ⟨t', by rw [Pipe.put_conn_self]; exact ht', ?_⟩
      rw [Pipe.put_read_self, Pipe.put_wrote_other, Pipe.put_conn_other, Pipe.put_flight_other, hread,
        hwrote, hconn, hother, hall, dataBytes_append]
      simp only [List.append_assoc, he]
    · rw [Side.other_other] at hr
      obtain ⟨t, ht, hall⟩ := hdest hr
      refine ⟨t, by rw [Pipe.put_conn_other, hconn]; exact ht, ?_⟩
      rw [Side.other_other, Pipe.put_read_other, Pipe.put_wrote_self, Pipe.put_conn_self,
        Pipe.put_flight_self, hread, hwrote]
      exact hall
  · intro j hj
    obtain rfl | rfl := Side.cases i j
    · rw [Pipe.put_conn_self] at hj ⊢
      exact hpend hj
    · rw [Pipe.put_conn_other, hconn] at hj ⊢
      exact h.pend i.other hj
  · cases i with
    | client =>
      rw [Pipe.put_conn_self]
      exact hcl rfl
    | host =>
      have : (q.put .host c out gone rd wr).conn .client = p.conn .client := by
        rw [← hconn]
        exact Pipe.put_conn_other ..
      rw [this]
      exact h.client
  · intro hn
    have hq := hnoq hn
    obtain ⟨h1, h2⟩ := h.unread fun hp => hq (hno hp)
    cases i with
    | client =>
      have hr : (q.put .client c out gone rd wr).read .host = q.read .host := Pipe.put_read_other ..
      have hw : (q.put .client c out gone rd wr).wrote .host = q.wrote .host := Pipe.put_wrote_other ..
      rw [hr, hw, hread, hwrote]
      exact ⟨h1, h2⟩
    | host =>
      obtain ⟨rfl, rfl⟩ := hquiet hq rfl
      rw [Pipe.put_read_self, Pipe.put_wrote_self, hread, hwrote, h1, h2]
      exact ⟨rfl, rfl⟩
  · intro hn
    rw [Pipe.put_accepted, haccq, hacc] at hn
    cases hn

theorem not_ready_put {q : Pipe} {c : TTTunnelConn} {out gone : List TcpFrame} {rd wr : Bytes}
    (hc : ¬Serving c) (hno : i = .host → q.NoOpen) (ho : ∀ f ∈ out, f.op ≠ .open) :
    ¬(q.put i c out gone rd wr).Ready i := by
  rintro (hs | ⟨hi, hn⟩)
  · rw [Pipe.put_conn_self] at hs
    exact hc hs
  · exact hn (noOpen_put (hno hi) ho)

theorem serving_of_ready {q : Pipe} {c : TTTunnelConn} {out gone : List TcpFrame} {rd wr : Bytes}
    (hno : i = .host → q.NoOpen) (ho : ∀ f ∈ out, f.op ≠ .open)
    (h : (q.put i c out gone rd wr).Ready i) : Serving c := by
  by_contra hc
  exact not_ready_put hc hno ho h

theorem not_serving_connFree (c : TTTunnelConn) : ¬Serving (connFree c) := by
  rintro ⟨h, -⟩
  cases h

theorem Pipe.Stream.act (h : p.Stream) (hl : p.Life cfg) (hs : Serving (p.conn i))
    {c : TTTunnelConn} {out gone : List TcpFrame} {rd wr : Bytes} (ho : ∀ f ∈ out, f.op ≠ .open)
    (hsrc : ∃ t', (c.used = true → t' = c.outbuf) ∧ (p.conn i).outbuf ++ rd = dataBytes out ++ t')
    (hdst : Serving c → (p.conn i).pend = wr ++ c.pend) (hwr : wr = [] ∨ Serving c)
    (hpend : c.connecting = false → c.pend = []) (hcl : i = .client → c.connecting = false) :
    (p.put i c out gone rd wr).Stream := by
  have hno : i = .host → p.NoOpen := by
    rintro rfl
    exact hl.noOpen_of_used hs.1
  refine h.exchange (d := []) (hl.accepted hs.1) rfl rfl rfl rfl rfl rfl id ho ?_ ?_ ?_ hpend hcl ?_
  · intro t _ ht
    rw [ht hs.1]
    exact hsrc
  · intro hr
    rw [List.append_nil]
    exact ⟨Or.inl hs, hdst (serving_of_ready hno ho hr)⟩
  · refine hwr.imp_right fun hc => Or.inl ?_
    rw [Pipe.put_conn_self]
    exact hc
  · intro hn hi
    exact absurd (hno hi) hn

theorem Stored.connecting_eq {c c₁ : TTTunnelConn} {b wr : Bytes} (h : Stored K i c b c₁ wr) :
    c₁.connecting = c.connecting := by
  cases h with
  | pend =>
    unfold connPend
    split_ifs <;> rfl
  | write => rfl
  | nowhere => rfl

theorem Stored.pend_nil {c c₁ : TTTunnelConn} {b wr : Bytes} (h : Stored K i c b c₁ wr)
    (hp : c.connecting = false → c.pend = []) (hc : c₁.connecting = false) : c₁.pend = [] := by
  rw [h.connecting_eq] at hc
  cases h with
  | pend _ hn => simp [hc] at hn
  | write => exact hp hc
  | nowhere => exact hp hc

theorem Stored.bytes {c c₁ : TTTunnelConn} {b wr : Bytes} (h : Stored K i c b c₁ wr)
    (hw : K.whole) (hroom : K.room) (hs : Serving c₁) (hpend : c.connecting = false → c.pend = [])
    (hcl : i = .client → c.connecting = false) : c.pend ++ b = wr ++ c₁.pend := by
  cases h with
  | pend hi hc hr =>
    have hfit := hr hroom
    rw [connPend, if_neg (by omega)]
    rfl
  | write n hc hso hn =>
    have hoff : c.connecting = false := by
      cases i with
      | client => exact hcl rfl
      | host => exact hc rfl
    rw [hpend hoff, List.take_of_length_le (hn hw), List.append_nil]
    rfl
  | nowhere hi hc hso =>
    have := hs.2
    simp [hso] at this

theorem Pipe.Stream.take (h : p.Stream) (hl : p.Life cfg) {f : TcpFrame} {rest : List TcpFrame}
    (hf : p.flight i = f :: rest) {c : TTTunnelConn} {out gone : List TcpFrame} {wr : Bytes}
    (ho : ∀ g ∈ out, g.op ≠ .open) (hout : dataBytes out = [])
    (hbuf : c.used = true → (p.conn i).used = true ∧ c.outbuf = (p.conn i).outbuf)
    (hdst : Serving c → Serving (p.conn i) ∧ (p.conn i).pend ++ f.bytes = wr ++ c.pend)
    (hwr : wr = [] ∨ Serving c) (hpend : c.connecting = false → c.pend = [])
    (hcl : i = .client → c.connecting = false) :
    ((p.pop i rest).put i c out gone [] wr).Stream := by
  obtain ⟨-, hno⟩ := hl.pop hf
  refine h.exchange (q := p.pop i rest) (d := f.bytes) (hl.accepted_of_flight (show p.flight i ≠ [] by simp [hf]))
    rfl rfl rfl rfl (p.pop_flight_other i rest) ?_ ?_ ho ?_ ?_ ?_ hpend hcl ?_
  · rw [hf, Pipe.pop_flight_self, dataBytes_cons]
  · exact fun hn g hg => hn g (mem_of_mem_pop hf hg)
  · intro t _ ht
    refine ⟨t, fun hc => ?_, by rw [hout]; simp⟩
    obtain ⟨hu, hb⟩ := hbuf hc
    rw [ht hu, hb]
  · intro hr
    obtain ⟨h1, h2⟩ := hdst (serving_of_ready hno ho hr)
    exact ⟨Or.inl h1, h2⟩
  · refine hwr.imp_right fun hc => Or.inl ?_
    rw [Pipe.put_conn_self]
    exact hc
  · intro hn hi
    exact absurd (hno hi) hn

theorem Rx.stream (hl : p.Life cfg) (h : p.Stream) (hw : K.whole) (hroom : K.room) {f : TcpFrame}
    {rest : List TcpFrame} (hf : p.flight i = f :: rest) {c' : TTTunnelConn}
    {out gone : List TcpFrame} {wr : Bytes} (hr : Rx cfg K i (p.conn i) f c' out gone wr) :
    ((p.pop i rest).put i c' out gone [] wr).Stream := by
  have hclient : i = .client → (p.conn i).connecting = false := by
    rintro rfl
    exact h.client
  cases hr with
  | unused hu hop =>
    refine h.take hl hf (by simp) rfl (fun hc => ⟨hc, rfl⟩) (fun hs => ?_) (Or.inl rfl) (h.pend i) hclient
    exact absurd hs.1 (by simp [hu])
  | ignored hu hop =>
    have hd : f.bytes = [] := by
      refine TcpFrame.bytes_of_ne ?_
      obtain h | h | ⟨h, -⟩ := hop <;> simp [h]
    refine h.take hl hf (by simp) rfl (fun hc => ⟨hc, rfl⟩) (fun hs => ⟨hs, ?_⟩) (Or.inl rfl) (h.pend i)
      hclient
    rw [hd]
    simp
  | closed hi hu hop hs =>
    refine h.take hl hf (by simp) rfl (fun hc => ⟨hc, rfl⟩) (fun hc => ?_) (Or.inl rfl) (h.pend i) hclient
    exact absurd hc.2 (by simp [hs])
  | openFail hi hu hop =>
    exact h.take hl hf (by simp) rfl (fun hc => by cases hc)
      (fun hc => absurd hc (not_serving_connFree _)) (Or.inl rfl) (fun _ => rfl) fun _ => rfl
  | refusedOpen hi hu hop hc hctl =>
    subst hi
    have hc' : c'.used = false ∧ Idle c' := by
      obtain rfl | ⟨c₀, rfl⟩ := hc
      · exact ⟨hu, hl.idle .host hu⟩
      · exact ⟨rfl, idle_connFree c₀⟩
    refine h.take hl hf ?_ (hctl.dataBytes (fun h => by cases h)) (fun h => ?_) (fun hs => ?_) (Or.inl rfl)
      (fun _ => hc'.2.pend) fun h => by cases h
    · intro g hg
      rw [hctl.mem hg]
      exact fun h => by cases h
    · simp [hc'.1] at h
    · exact absurd hs.1 (by simp [hc'.1])
  | data hu hop hs hcr =>
    rename_i c₁
    have hsame : Serving c' → Serving c₁ := by
      rintro ⟨h1, h2⟩
      rw [hcr.same.1] at h1
      rw [hcr.same.2.2.2.2.1] at h2
      exact ⟨h1, h2⟩
    have hback : Serving c₁ → Serving (p.conn i) := by
      rintro ⟨h1, h2⟩
      rw [hs.same.1] at h1
      rw [hs.same.2.2.2.2.1] at h2
      exact ⟨h1, h2⟩
    have hconn : c'.connecting = c₁.connecting := by cases hcr <;> rfl
    have hpend' : c'.pend = c₁.pend := hcr.same.2.2.2.2.2.2.2.2
    have hctl : dataBytes out = [] := by
      cases hcr with
      | count => rfl
      | batch _ hc => exact hc.dataBytes (fun h => by cases h)
    refine h.take hl hf (fun g hg => by simp [hcr.op_eq hg]) hctl ?_ ?_ ?_ ?_ ?_
    · intro _
      exact ⟨hu, hcr.same.2.2.2.2.2.2.2.1.trans hs.same.2.2.2.2.2.2.2.2⟩
    · intro hc
      have := hs.bytes hw hroom (hsame hc) (h.pend i) hclient
      rw [TcpFrame.bytes, if_pos hop, hpend']
      exact ⟨hback (hsame hc), this⟩
    · cases hs with
      | pend => exact Or.inl rfl
      | nowhere => exact Or.inl rfl
      | write n hcn hso hn =>
        refine Or.inr ⟨hcr.same.1.trans hu, ?_⟩
        rw [hcr.same.2.2.2.2.1]
        exact hso
    · intro hn
      rw [hconn] at hn
      rw [hpend']
      exact hs.pend_nil (h.pend i) hn
    · intro hi
      rw [hconn, hs.connecting_eq]
      exact hclient hi
  | ack hu hop =>
    have hd : f.bytes = [] := TcpFrame.bytes_of_ne (by simp [hop])
    unfold connTakeCredit
    dsimp only
    split_ifs
    · exact h.take hl hf (by simp) rfl (fun hc => by cases hc)
        (fun hc => absurd hc (not_serving_connFree _)) (Or.inl rfl) (fun _ => rfl) fun _ => rfl
    · refine h.take hl hf (by simp) rfl (fun hc => ⟨hc, rfl⟩) (fun hs => ⟨hs, ?_⟩) (Or.inl rfl)
        (h.pend i) hclient
      rw [hd]
      simp
  | fin hu hop hset =>
    unfold connMarkPeerGone
    split_ifs
    · exact h.take hl hf (by simp) rfl (fun hc => by cases hc)
        (fun hc => absurd hc (not_serving_connFree _)) (Or.inl rfl) (fun _ => rfl) fun _ => rfl
    · refine h.take hl hf (by simp) rfl (fun _ => ⟨hu, rfl⟩) (fun hs => ?_) (Or.inl rfl) (h.pend i) hclient
      exact absurd hs.2 (by simp)
  | opened s b hi hu hop hout =>
    subst hi
    obtain ⟨-, hno⟩ := hl.pop hf
    have hidle := hl.idle .host hu
    have hopen : ¬p.NoOpen := fun hn => hn f (by simp [hf]) hop
    obtain ⟨hread, -⟩ := h.unread hopen
    have hctl : (∀ g ∈ out, g.op ≠ .open) ∧ dataBytes out = [] := by
      cases b with
      | true =>
        rw [hout.1]
        simp
      | false =>
        refine ⟨fun g hg => ?_, Ctl.dataBytes hout fun h => by cases h⟩
        rw [Ctl.mem hout hg]
        exact fun h => by cases h
    refine h.exchange (q := p.pop .host rest) (d := f.bytes) (hl.accepted_of_flight (show p.flight .host ≠ [] by simp [hf]))
      rfl rfl rfl rfl (p.pop_flight_other .host rest) ?_ ?_ hctl.1 ?_ ?_ (Or.inl rfl) (fun _ => hidle.pend)
      (fun h => Side.noConfusion h) fun _ _ => ⟨rfl, rfl⟩
    · rw [hf, Pipe.pop_flight_self, dataBytes_cons]
    · exact fun _ => hno rfl
    · intro t ht _
      rw [hread, List.suffix_nil] at ht
      refine ⟨[], fun _ => hidle.outbuf.symm, ?_⟩
      rw [ht, hctl.2]
    · intro _
      refine ⟨Or.inr ⟨rfl, hopen⟩, ?_⟩
      rw [TcpFrame.bytes_of_ne (by simp [hop])]
      simp [connAlloc]

theorem Move.stream (hl : p.Life cfg) (h : p.Stream) (hlive : ∀ i, K.live i) (hw : K.whole)
    (hroom : K.room) (hm : Move cfg K p p') : p'.Stream := by
  cases hm with
  | @accept out gone fd hacc hctl =>
    obtain ⟨hunused, hfl⟩ := hl.fresh hacc
    have hempty := h.fresh hacc
    have hpend : ∀ i, (p.conn i).pend = [] := fun i => (hl.idle i (hunused i)).pend
    have hdata : dataBytes out = [] := hctl.dataBytes (fun h => by cases h)
    refine ⟨?_, ?_, ?_, rfl, ?_, ?_⟩
    · intro i
      cases i <;> simp [Pipe.put, Side.other, Function.update, hempty]
    · intro i _
      refine ⟨[], ?_, ?_⟩
      · intro hu
        cases i with
        | client => exact (hl.idle .client (hunused .client)).outbuf.symm
        | host => exact (hl.idle .host (hunused .host)).outbuf.symm
      · cases i <;> simp [Pipe.put, Side.other, Function.update, hempty, hpend, hfl, hdata, connAlloc]
    · intro i _
      cases i with
      | client => exact hpend .client
      | host => exact hpend .host
    · intro _
      exact hempty .host
    · intro hn
      cases hn
  | sent i k hs ho hu hk =>
    refine h.act hl hs ?_ ⟨(p.conn i).outbuf.drop k, fun _ => rfl, ?_⟩ (fun _ => rfl) (Or.inl rfl)
      (h.pend i) ?_
    · intro f hf
      rw [List.mem_singleton.mp hf]
      exact fun h => by cases h
    · simp [TTTunnelConn.frame, TcpFrame.bytes]
    · rintro rfl
      exact h.client
  | swallowed i k hn hs ho hu hk => exact absurd (hlive i) hn
  | read i b hs =>
    refine h.act hl hs (by simp) ⟨(p.conn i).outbuf ++ b, fun _ => rfl, rfl⟩ (fun _ => rfl) (Or.inl rfl)
      (h.pend i) ?_
    rintro rfl
    exact h.client
  | close i b hs hctl =>
    refine h.act hl hs ?_ ⟨(p.conn i).outbuf ++ b, fun hc => (by cases hc), ?_⟩
      (fun hc => absurd hc (not_serving_connFree _)) (Or.inl rfl) (fun _ => rfl) fun _ => rfl
    · intro f hf
      rw [hctl.mem hf]
      exact fun h => by cases h
    · rw [hctl.dataBytes (fun h => by cases h)]
      rfl
  | connected n hs hc hn hctl =>
    refine h.act hl hs ?_ ⟨(p.conn .host).outbuf, fun _ => rfl, ?_⟩ (fun _ => ?_) (Or.inr hs)
      (fun _ => rfl) fun h => by cases h
    · intro f hf
      rw [hctl.mem hf]
      exact fun h => by cases h
    · rw [hctl.dataBytes (fun h => by cases h)]
      simp
    · rw [List.take_of_length_le (hn hw), List.append_nil]
  | connectFailed hs hc hctl =>
    refine h.act hl hs ?_ ⟨(p.conn .host).outbuf, fun hc => (by cases hc), ?_⟩
      (fun hc => absurd hc (not_serving_connFree _)) (Or.inl rfl) (fun _ => rfl) fun _ => rfl
    · intro f hf
      rw [hctl.mem hf]
      exact fun h => by cases h
    · rw [hctl.dataBytes (fun h => by cases h)]
      simp
  | rx i f rest hf hr => exact hr.stream hl h hw hroom hf

theorem Moves.stream (hl : p.Life cfg) (h : p.Stream) (hlive : ∀ i, K.live i) (hw : K.whole)
    (hroom : K.room) (hm : Moves cfg K p p') : p'.Stream := by
  induction hm with
  | refl => exact h
  | tail hms hm ih => exact hm.stream (Moves.life hl hms) ih hlive hw hroom

end

section

variable {C : Crypto} {cfg : LinkCfg} {w : Link}

instance (env : TunnelEnv) (io : Io) (c : TTTunnelConn) : Decidable (SendsData env io c) :=
  match h : env.recv io.clock with
  | .data b => decidable_of_iff (c.unacked < ttTunnelTcpWindow ∧ (c.outbuf ≠ [] ∨ b ≠ []))
      (by simp [SendsData, h])
  | .again => decidable_of_iff (c.unacked < ttTunnelTcpWindow ∧ c.outbuf ≠ []) (by simp [SendsData, h])
  | .error => decidable_of_iff (c.unacked < ttTunnelTcpWindow ∧ c.outbuf ≠ []) (by simp [SendsData, h])

instance (e : TunnelEffect) : Decidable e.Whole :=
  match e with
  | .wrote _ _ b n => inferInstanceAs (Decidable (b.length ≤ n))
  | .lossless .. | .refused .. | .lossy .. | .connect .. | .udpOpen .. | .toServer .. | .toLocal ..
  | .read .. => isTrue trivial

/-- A DATA frame that meets a pending connect fits into the connect buffer. -/
def Link.Fits (w : Link) : LinkOp → Prop
  | .deliver .host => ∀ p ∈ (w.chan .host).head?, ∀ f ∈ p.frame, (w.conn .host).connecting = true →
      f.op = .data → (w.conn .host).pend.length + f.payload.length ≤ ttTunnelPendMax
  | _ => True

instance Link.decidableFits (w : Link) (op : LinkOp) : Decidable (w.Fits op) :=
  match op with
  | .deliver .host => inferInstanceAs (Decidable (∀ p ∈ (w.chan .host).head?, ∀ f ∈ p.frame,
      (w.conn .host).connecting = true → f.op = .data →
      (w.conn .host).pend.length + f.payload.length ≤ ttTunnelPendMax))
  | .deliver .client | .accept _ | .poll _ | .retry _ | .session _ _ => isTrue trivial

/-- A step that drops no slice: every packet arrives as it was built, no DATA frame is sent into
an inactive session, every write is taken whole and every frame fits into the connect buffer. -/
def StreamStep (C : Crypto) (cfg : LinkCfg) (w : Link) (op : LinkOp) : Prop :=
  Intact C cfg w op ∧
    (∀ i, (served C cfg w op i).1.Live (cfg.fn i) ∨
      ¬SendsData (cfg.env i) (served C cfg w op i).1 (served C cfg w op i).2) ∧
    (∀ i, ∀ e ∈ (linkStep C cfg w op).log i, e.Whole) ∧ w.Fits op

instance (C : Crypto) (cfg : LinkCfg) (w : Link) (op : LinkOp) : Decidable (StreamStep C cfg w op) :=
  inferInstanceAs (Decidable (_ ∧ _ ∧ _ ∧ _))

theorem stream_start (tun : Side → Option (ℕ → TTSession)) : (Link.start tun).pipe.Stream where
  pre _ := List.nil_prefix
  whole _ _ := ⟨[], fun _ => rfl, rfl⟩
  pend _ _ := rfl
  client := rfl
  unread _ := ⟨rfl, rfl⟩
  fresh _ _ := ⟨rfl, rfl⟩

theorem linkStep_stream (hl : w.pipe.Life cfg) (h : w.pipe.Stream) {op : LinkOp}
    (ho : StreamStep C cfg w op) : (linkStep C cfg w op).pipe.Stream := by
  obtain ⟨hint, hlive, hwhole, hfits⟩ := ho
  refine Moves.stream hl h hlive hwhole ?_ (linkStep_moves hl.toWf op hint)
  rintro rfl
  exact hfits

theorem reach_stream {tun : Side → Option (ℕ → TTSession)}
    (hr : Machine.Reach (linkStep C cfg) (StreamStep C cfg) (Link.start tun) w) :
    w.pipe.Life cfg ∧ w.pipe.Stream := by
  induction hr with
  | refl => exact ⟨life_start cfg tun, stream_start tun⟩
  | step op _ ho ih => exact ⟨linkStep_life ih.1 ho.1, linkStep_stream ih.1 ih.2 ho⟩

def Link.source (w : Link) (i : Side) : Bytes := (w.log i).flatMap TunnelEffect.readBytes

def Link.sink (w : Link) (i : Side) : Bytes := (w.log i).flatMap TunnelEffect.wroteBytes

def HandedOver (fn : ℕ) (f : TcpFrame) (io io' : Io) : Prop :=
  ∃ pkt, (io.owner, TunnelEffect.lossless fn pkt (some f)) ∈ io'.log.drop io.log.length

theorem tcpSendEx_inactive {env : TunnelEnv} {io : Io} {fn : ℕ} {f : TcpFrame} (hn : ¬io.Live fn)
    (hf : f.payload.length ≤ ttTunnelE2eeTcpMaxPayload) :
    tcpSendEx C env io fn f = (io.emit (.refused fn f), .ok) := by
  have hmax : ttTunnelE2eeTcpMaxPayload ≤ ttTunnelTcpMaxPayload := by decide
  unfold Io.Live at hn
  push Not at hn
  obtain ⟨t, ht, ha⟩ := hn
  rw [tcpSendEx, if_neg (by omega), show io.tun = some t from ht]
  dsimp only
  rw [if_neg (by omega), if_pos (by simpa using ha)]

theorem tcpSendEx_oversize {env : TunnelEnv} {io : Io} {fn : ℕ} {f : TcpFrame} (hn : ¬io.Live fn)
    (hf : ttTunnelE2eeTcpMaxPayload < f.payload.length) : (tcpSendEx C env io fn f).2 = .fatal := by
  unfold Io.Live at hn
  push Not at hn
  obtain ⟨t, ht, -⟩ := hn
  rw [tcpSendEx, show io.tun = some t from ht]
  split_ifs
  · rfl
  · rfl

theorem tcpSendEx_ok_iff {env : TunnelEnv} {io : Io} {fn : ℕ} {f : TcpFrame} :
    ((tcpSendEx C env io fn f).2 = .ok → HandedOver fn f io (tcpSendEx C env io fn f).1) ↔
      io.Live fn ∨ ttTunnelE2eeTcpMaxPayload < f.payload.length := by
  constructor
  · intro h
    by_contra hn
    rw [not_or, not_lt] at hn
    rw [tcpSendEx_inactive hn.1 hn.2] at h
    obtain ⟨pkt, hp⟩ := h rfl
    simp [Io.emit] at hp
  · intro h hok
    by_cases hl : io.Live fn
    · obtain ⟨l, -, ⟨-, pkt, -, hd⟩ | ⟨hne, -⟩⟩ := (tcpSendEx_spec C env io fn f).grows
      · refine ⟨pkt, ?_⟩
        rw [hd.log_eq, List.drop_left]
        simp
      · exact absurd hok (hne hl)
    · rw [tcpSendEx_oversize hl (h.resolve_left hl)] at hok
      cases hok

/-- What a destination socket took is at every moment a prefix of what its source gave, and a
DATA frame counts as sent only when it was handed over. -/
theorem stream_prefix_of_reach {tun : Side → Option (ℕ → TTSession)}
    (hr : Machine.Reach (linkStep C cfg) (StreamStep C cfg) (Link.start tun) w) :
    (∀ i, w.sink i.other <+: w.source i) ∧
      ∀ (env : TunnelEnv) (io : Io) (fn : ℕ) (f : TcpFrame), f.op = .data →
        (((tcpSendEx C env io fn f).2 = .ok → HandedOver fn f io (tcpSendEx C env io fn f).1) ↔
          io.Live fn ∨ ttTunnelE2eeTcpMaxPayload < f.payload.length) := by
  refine ⟨?_, fun _ _ _ _ _ => tcpSendEx_ok_iff⟩
  intro i
  exact (reach_stream hr).2.pre i

end

namespace Instance

def streamEnv : TunnelEnv :=
  { linkEnv with recv := fun k => if k = 1 then .data [1, 2] else if k = 3 then .data [3] else .again }

def streamCfg (n : ℕ) : LinkCfg :=
  { linkCfg with env := fun i => if i = .client then streamEnv else { linkEnv with taken := fun _ => n } }

def streamRun (n : ℕ) (ops : List LinkOp) : Link :=
  ops.foldl (linkStep crypto (streamCfg n)) (Link.start fun _ => none)

def twoSlices : List LinkOp :=
  [.accept 3, .deliver .host, .deliver .client, .poll .client, .deliver .host, .deliver .host]

theorem stream_prefix_twoSlices :
    (streamRun 1367 twoSlices).sink .host = [1, 2, 3] ∧
      (streamRun 1367 twoSlices).sink .host <+: (streamRun 1367 twoSlices).source .client :=
  ⟨by decide +kernel, (stream_prefix_of_reach (.run .refl (by decide +kernel))).1 .client⟩

theorem twoSlices_gap :
    (Machine.Meets (linkStep crypto (streamCfg 1)) (Intact crypto (streamCfg 1))
        (Link.start fun _ => none) twoSlices ∧
      (streamRun 1 twoSlices).source .client = [1, 2, 3] ∧
      (streamRun 1 twoSlices).sink .host = [1, 3] ∧
      ¬∀ i, (streamRun 1 twoSlices).sink i.other <+: (streamRun 1 twoSlices).source i) ∧
    ¬((tcpSendEx crypto linkEnv ⟨some fun _ => TTSession.zero, 0, 0, []⟩ 0 ⟨0, 1, .data, [1]⟩).2 = .ok →
      HandedOver 0 ⟨0, 1, .data, [1]⟩ ⟨some fun _ => TTSession.zero, 0, 0, []⟩
        (tcpSendEx crypto linkEnv ⟨some fun _ => TTSession.zero, 0, 0, []⟩ 0 ⟨0, 1, .data, [1]⟩).1) := by
  refine ⟨by decide +kernel, ?_⟩
  rw [tcpSendEx_ok_iff]
  decide

end Instance

end TkTox
