import TkTox.DrainEnds

/-!
A reply to a RESEND that asks for itself. Each poll re-sends a text and buffers the copy under the
generation and from the seq that are asked for; while no re-key header is in its way, the reply
never ends.
-/

namespace TkTox

variable {C : Crypto} {s : TTSession} {cap : ℕ}

theorem dueHdrLen_le (C : Crypto) (s : TTSession) (b : Bool) :
    dueHdrLen C s b ≤ ttHdrDataKempub := by
  unfold dueHdrLen
  split_ifs <;> decide

/-- The counter has not wrapped since a text that is asked for was sent, and will not in one scan. -/
structure Unwrapped (s : TTSession) : Prop where
  room : s.send.seq + ttSentMax ≤ 2 ^ 32
  sent : ∀ e ∈ wantedMsgs s, e.seq < s.send.seq

def AlwaysFits (e : TTSentMsg) : Prop := e.data.length ≤ 129

theorem AlwaysFits.room {e : TTSentMsg} (h : AlwaysFits e) (hcap : ttFrameMax ≤ cap) (s : TTSession) :
    FrameRoom C s false e.data.length cap := by
  have hdue := dueHdrLen_le C s false
  unfold AlwaysFits at h
  unfold FrameRoom
  simp only [ttFrameMax, ttMac16, ttNonce12, ttNonce24, ttHdrDataKempub] at hcap hdue ⊢
  split_ifs <;> omega

theorem SomeResent.cons {e : TTSentMsg} {l : List TTSentMsg} (h : SomeResent C cap s (e :: l)) (ρ : Draws) :
    FrameRoom C s false e.data.length cap ∨ SomeResent C cap (emitDrawn C s false ρ) l := by
  obtain h | ⟨σ, h⟩ := h
  · exact Or.inl h
  · exact Or.inr (h.congr ((⟨rfl, rfl, rfl⟩ : SameDue s s).drawn σ ρ))

theorem relResend_resent (hC : C.AeadCorrect) (hl : s.lossy = false) (ρ : ℕ → Draws) (n : ℕ) {r : ℕ}
    (hr : r + n = s.rel.sent.count) (hq : s.send.seq + n ≤ 2 ^ 32)
    (hsome : SomeResent C cap s ((s.rel.sent.entries.drop r).filter (wantedBy s.rel))) :
    ∃ t p, t.lossy = false ∧ t.root = s.root ∧ t.rel = s.rel ∧ s.send.seq ≤ t.send.seq ∧
      p < s.rel.sent.count ∧ wantedBy s.rel (s.rel.sent.m (sentIdx (s.rel.sent.head + p))) = true ∧
      (relResend C cap ρ n r s).2 ≠ [] ∧
      (relResend C cap ρ n r s).1.root = s.root ∧
      (relResend C cap ρ n r s).1.rel = { s.rel with sent := resendBuf C t p } := by
  induction n generalizing r s with
  | zero =>
    have hlen : s.rel.sent.entries.length = s.rel.sent.count := Ring.entries_length
    rw [List.drop_eq_nil_of_le (by omega)] at hsome
    exact hsome.elim
  | succ n ih =>
    have hlt : r < s.rel.sent.count := by omega
    obtain ⟨hlen, hcell⟩ := List.getElem?_eq_some_iff.mp (entries_getElem hlt)
    rw [List.drop_eq_getElem_cons hlen, hcell] at hsome
    cases hw : wantedBy s.rel (s.rel.sent.m (sentIdx (s.rel.sent.head + r))) with
    | false =>
      rw [List.filter_cons_of_neg (by simp [hw])] at hsome
      rw [relResend_skip hw]
      exact ih hl (by omega) (by omega) hsome
    | true =>
      rw [List.filter_cons_of_pos hw] at hsome
      obtain ⟨⟨hlossy, -⟩, -⟩ | ⟨-, hnone, he⟩ | ⟨-, f, hne, -, he⟩ := relResend_attempt C cap ρ hw n
      · rw [hl] at hlossy
        cases hlossy
      · have hno : ¬ FrameRoom C s false (s.rel.sent.m (sentIdx (s.rel.sent.head + r))).data.length cap := by
          intro hroom
          rw [← resendText_now, ← emitEncode_isSome_iff (ρ := ρ r) hC, hnone] at hroom
          cases hroom
        have hrest := (hsome.cons (ρ r)).resolve_left hno
        rw [he]
        -- a scan that goes on has not drawn the last seq
        have hnext : (emitDrawn C s false (ρ r)).send.seq + n ≤ 2 ^ 32 ∧
            (n ≠ 0 → (emitDrawn C s false (ρ r)).send.seq = s.send.seq + 1) := by
          change seqNext s.send.seq + n ≤ 2 ^ 32 ∧ (n ≠ 0 → seqNext s.send.seq = s.send.seq + 1)
          unfold seqNext
          omega
        obtain ⟨t, p, ht⟩ := ih (s := emitDrawn C s false (ρ r)) hl
          (show r + 1 + n = s.rel.sent.count by omega) hnext.1 hrest
        obtain ⟨h1, h2, h3, h4, h5⟩ := ht
        refine ⟨t, p, h1, h2, h3, ?_, h5⟩
        have hn : n ≠ 0 := by
          rintro rfl
          have hnil : s.rel.sent.entries.length = s.rel.sent.count := Ring.entries_length
          rw [List.drop_eq_nil_of_le (by omega)] at hrest
          exact hrest.elim
        have := hnext.2 hn
        omega
      · rw [he]
        have hframe := emitDone_frame (C := C) (s := s) (resendText s.rel.sent r) false (ρ r) f
        exact ⟨s, r, hl, rfl, rfl, le_rfl, hlt, hw, hne, hframe.2, rfl⟩

theorem freshMsg_wanted (hg : s.rel.resendRepGen = relGen C s.root) (hf : s.rel.resendRepFrom = 0)
    (data : Bytes) : wantedBy s.rel (freshMsg C s data) = true := by
  rw [wantedBy, resendWanted, freshMsg, hg, hf]
  simp

theorem ownResend_again (hC : C.AeadCorrect) (hb : s.rel.sent.count ≤ ttSentMax) (hu : Unwrapped s)
    (hreq : s.rel.resendReqPending = false) (h : OwnResend C cap s) (ρ : ℕ → Draws) :
    (ttSessionRelPoll C s cap ρ).2 ≠ [] ∧ (ttSessionRelPoll C s cap ρ).1.rel.resendRepPending = true ∧
      ∃ e ∈ wantedMsgs (ttSessionRelPoll C s cap ρ).1, s.send.seq ≤ e.seq := by
  obtain ⟨ha, hl, hrep, hg, hf, hsome⟩ := h
  have hroom := hu.room
  obtain ⟨t, p, htl, htr, hrel, hseq, hp, hw, hne, hroot, hs'⟩ := relResend_resent hC hl ρ s.rel.sent.count
    (r := 0) (Nat.zero_add _) (by omega) (by rwa [List.drop_zero])
  have hpoll : ttSessionRelPoll C s cap ρ = relResend C cap ρ s.rel.sent.count 0 s := by
    rw [ttSessionRelPoll, if_neg (by simp [ha]), if_neg (by simp [hreq]), if_pos hrep]
  rw [hpoll]
  refine ⟨hne, by rw [hs']; exact hrep, ?_⟩
  obtain ⟨hlen, hcell⟩ := List.getElem?_eq_some_iff.mp (entries_getElem hp)
  set w := s.rel.sent.m (sentIdx (s.rel.sent.head + p))
  have hold := hu.sent w (List.mem_filter.mpr ⟨hcell ▸ List.getElem_mem hlen, hw⟩)
  have he : t.rel.sent.entries = s.rel.sent.entries.take p ++ w :: s.rel.sent.entries.drop (p + 1) := by
    rw [hrel, ← hcell, List.cons_getElem_drop_succ, List.take_append_drop]
  have htake : (s.rel.sent.entries.take p).length = p := by
    rw [List.length_take]
    omega
  obtain ⟨hent, -⟩ := resendBuf_entries (C := C) (by rw [hrel]; exact hb) htl he
  rw [htake] at hent
  have hfresh := freshMsg_wanted (C := C) (s := t) (by rw [hrel, htr]; exact hg) (by rw [hrel]; exact hf)
    (rebuffered t.rel.sent (s.rel.sent.entries.take p) w)
  refine ⟨freshMsg C t (rebuffered t.rel.sent (s.rel.sent.entries.take p) w), ?_, hseq⟩
  rw [wantedMsgs, hs']
  refine List.mem_filter.mpr ⟨?_, hrel ▸ hfresh⟩
  change _ ∈ (resendBuf C t p).entries
  rw [hent]
  refine List.mem_filter.mpr ⟨List.mem_append_right _ (List.mem_singleton_self _), ?_⟩
  rw [sameTag, freshMsg]
  simp [show t.send.seq ≠ w.seq by omega]

-- How many keys the sending chain gave out since the message was sent.
def sentAgo (q : ℕ) (e : TTSentMsg) : ℕ := (q + (2 ^ 32 - e.seq)) % 2 ^ 32

def Queued (q : ℕ) (l : List TTSentMsg) : Prop :=
  ∀ i e, l[i]? = some e → e.seq < 2 ^ 32 ∧ 1 ≤ sentAgo q e ∧ sentAgo q e + i < 2 ^ 32

theorem Queued.sublist {q : ℕ} {l l' : List TTSentMsg} (h : Queued q l) (hl : l'.Sublist l) : Queued q l' := by
  obtain ⟨f, hf⟩ := List.sublist_iff_exists_orderEmbedding_getElem?_eq.mp hl
  intro i e he
  rw [hf] at he
  obtain ⟨h1, h2, h3⟩ := h _ _ he
  have hi : i ≤ f i := f.strictMono.le_apply
  exact ⟨h1, h2, by omega⟩

theorem Queued.next {q : ℕ} {w e : TTSentMsg} {l : List TTSentMsg} (h : Queued q (w :: l)) (hq : q < 2 ^ 32)
    (hl : l.length ≤ ttSentMax) (he : e.seq = q) : Queued (seqNext q) (l ++ [e]) := by
  intro i x hx
  by_cases hi : i < l.length
  · rw [List.getElem?_append_left hi] at hx
    obtain ⟨h1, h2, h3⟩ := h (i + 1) x hx
    have hnext : sentAgo (seqNext q) x = sentAgo q x + 1 := by
      unfold sentAgo seqNext at *
      omega
    rw [hnext]
    omega
  · rw [List.getElem?_append_right (by omega)] at hx
    obtain ⟨h1, rfl⟩ : i - l.length = 0 ∧ e = x := by
      cases hk : i - l.length with
      | zero =>
        rw [hk] at hx
        exact ⟨rfl, Option.some.inj hx⟩
      | succ k =>
        rw [hk] at hx
        simp at hx
    have hone : sentAgo (seqNext q) e = 1 := by
      unfold sentAgo seqNext
      rw [he]
      omega
    simp only [ttSentMax] at hl
    rw [hone, he]
    omega

theorem Unwrapped.queued (h : Unwrapped s) (hl : (wantedMsgs s).length ≤ ttSentMax) :
    Queued s.send.seq (wantedMsgs s) := by
  intro i e he
  have hroom := h.room
  have hlt := h.sent e (List.mem_of_getElem? he)
  have hi : i < (wantedMsgs s).length := (List.getElem?_eq_some_iff.mp he).1
  have hage : sentAgo s.send.seq e = s.send.seq - e.seq := by
    unfold sentAgo
    omega
  rw [hage]
  omega

structure ResendLoop (C : Crypto) (s : TTSession) : Prop where
  active : s.active = true
  lossy : s.lossy = false
  req : s.rel.resendReqPending = false
  rep : s.rel.resendRepPending = true
  own : s.rel.resendRepGen = relGen C s.root
  first : s.rel.resendRepFrom = 0
  seq : s.send.seq < 2 ^ 32
  wf : SentWf s.rel.sent
  some : wantedMsgs s ≠ []
  fits : ∀ e ∈ wantedMsgs s, AlwaysFits e
  queued : Queued s.send.seq (wantedMsgs s)

theorem ResentOne.wantedMsgs_own {A B : List TTSentMsg} {w : TTSentMsg} {s' : TTSession} {f : Bytes}
    (h : ResentOne C s A w B s' f) (hl : s.lossy = false) (hw : wantedBy s.rel w = true)
    (hA : ∀ e ∈ A, wantedBy s.rel e = false)
    (hx : sameTag w (freshMsg C s (rebuffered s.rel.sent A w)) = false)
    (hfresh : wantedBy s.rel (freshMsg C s (rebuffered s.rel.sent A w)) = true) :
    wantedMsgs s' = (B.filter (wantedBy s.rel)).filter (fun e => !sameTag w e) ++
      [freshMsg C s (rebuffered s.rel.sent A w)] := by
  have hA' : (if s.rel.sent.count = ttSentMax then A.tail else A).filter (wantedBy s.rel) = [] := by
    apply List.filter_eq_nil_iff.mpr
    intro e he
    split_ifs at he
    · simp [hA e (List.mem_of_mem_tail he)]
    · simp [hA e he]
  rw [wantedMsgs, h.wantedBy_eq, h.entries_eq hl hw hA hx, List.filter_append, List.filter_append, hA',
    List.nil_append, List.filter_cons_of_pos hfresh, List.filter_nil, List.filter_filter, List.filter_filter]
  congr 2
  funext e
  exact Bool.and_comm _ _

theorem ResendLoop.poll (hC : C.AeadCorrect) (hcap : ttFrameMax ≤ cap) (h : ResendLoop C s)
    (ρ : ℕ → Draws) : (ttSessionRelPoll C s cap ρ).2 ≠ [] ∧
      ResendLoop C (ttSessionRelPoll C s cap ρ).1 := by
  cases hW : wantedMsgs s with
  | nil => exact absurd hW h.some
  | cons w ws =>
    obtain ⟨A, B, he, hA, hw, hB⟩ := List.filter_eq_cons_iff.mp hW
    have hA' : ∀ e ∈ A, wantedBy s.rel e = false := fun e he => by simpa using hA e he
    have hlen := wantedMsgs_length_le h.wf
    rw [hW, List.length_cons] at hlen
    have hfits := h.fits w (by rw [hW]; exact List.mem_cons_self ..)
    have hone := ttSessionRelPoll_resend (ρ := ρ) hC h.active h.req h.rep
      (fun hl => by rw [h.lossy] at hl; cases hl) h.wf he (hfits.room hcap s) hA' hw
    have hqueue := h.queued
    rw [hW] at hqueue
    obtain ⟨hlt, hage, -⟩ := hqueue 0 w rfl
    have hq := h.seq
    have hx : sameTag w (freshMsg C s (rebuffered s.rel.sent A w)) = false := by
      have hne : s.send.seq ≠ w.seq := by
        intro heq
        rw [sentAgo, heq] at hage
        omega
      rw [sameTag, freshMsg]
      simp [hne]
    have hfresh := freshMsg_wanted h.own h.first (rebuffered s.rel.sent A w)
    have hW' := hone.wantedMsgs_own h.lossy hw hA' hx hfresh
    rw [hB] at hW'
    obtain ⟨b, hb⟩ := hone.rel
    refine ⟨hone.ne_nil, ?_⟩
    constructor
    case active => exact hone.active.trans h.active
    case lossy => exact hone.lossy.trans h.lossy
    case req => rw [hb]; exact h.req
    case rep => rw [hb]; exact h.rep
    case own => rw [hb, hone.root]; exact h.own
    case first => rw [hb]; exact h.first
    case seq => rw [hone.seq]; exact seqNext_lt _
    case wf => exact hone.wf h.wf he
    case some => simp [hW']
    case fits =>
      intro e hm
      rw [hW'] at hm
      obtain hm | hm := List.mem_append.mp hm
      · exact h.fits e (by rw [hW]; exact List.mem_cons_of_mem _ (List.mem_of_mem_filter hm))
      · rw [List.mem_singleton.mp hm, AlwaysFits, freshMsg, rebuffered_length]
        exact hfits
    case queued =>
      rw [hW', hone.seq]
      have hsub : (w :: ws.filter fun e => !sameTag w e).Sublist (w :: ws) :=
        List.Sublist.cons_cons w List.filter_sublist
      apply (hqueue.sublist hsub).next hq ?_ rfl
      have := (List.filter_sublist (l := ws) (p := fun e => !sameTag w e)).length_le
      simp only [ttSentMax]
      omega

theorem ResendLoop.drain (hC : C.AeadCorrect) (hcap : ttFrameMax ≤ cap) (h : ResendLoop C s)
    (ρ : ℕ → ℕ → Draws) (n : ℕ) : ResendLoop C (relDrain C cap ρ n s).1 := by
  induction n generalizing s ρ with
  | zero => exact h
  | succ n ih => exact ih (h.poll hC hcap (ρ 0)).2 fun i => ρ (i + 1)

theorem ResendLoop.not_drainEnds (hC : C.AeadCorrect) (hcap : ttFrameMax ≤ cap) (h : ResendLoop C s) :
    ¬ DrainEnds C cap s := by
  intro hends
  obtain ⟨n, hn⟩ := hends fun _ _ => ⟨.zero _, .zero _, .zero _, [], [], .zero _⟩
  exact ((h.drain hC hcap _ n).poll hC hcap _).1 hn

theorem OwnResend.loop (h : OwnResend C cap s) (hq : s.send.seq < 2 ^ 32) (hwf : SentWf s.rel.sent)
    (hu : Unwrapped s) (hreq : s.rel.resendReqPending = false) (hfits : ∀ e ∈ wantedMsgs s, AlwaysFits e) :
    ResendLoop C s := by
  obtain ⟨ha, hl, hrep, hg, hf, hsome⟩ := h
  refine ⟨ha, hl, hreq, hrep, hg, hf, hq, hwf, ?_, hfits, hu.queued (wantedMsgs_length_le hwf)⟩
  intro hnil
  rw [hnil] at hsome
  exact hsome

/-- Draining ends unless everything of the current generation is asked for and some text of it is
re-sent. There the copy is asked for again, and if the texts leave room for any re-key header the
reply never ends. -/
theorem drainEnds_ownResend (hC : C.AeadCorrect) (hcap : ttFrameMax ≤ cap) (hq : s.send.seq < 2 ^ 32)
    (hwf : SentWf s.rel.sent) :
    (¬ OwnResend C cap s → DrainEnds C cap s) ∧
      (s.rel.resendReqPending = false → Unwrapped s →
        (OwnResend C cap s → ∀ ρ, (ttSessionRelPoll C s cap ρ).2 ≠ [] ∧
          (ttSessionRelPoll C s cap ρ).1.rel.resendRepPending = true ∧
          ∃ e ∈ wantedMsgs (ttSessionRelPoll C s cap ρ).1, s.send.seq ≤ e.seq) ∧
        ((∀ e ∈ wantedMsgs s, AlwaysFits e) → (DrainEnds C cap s ↔ ¬ OwnResend C cap s))) := by
  have hends : ¬ OwnResend C cap s → DrainEnds C cap s := drainEnds_of_not_ownResend hC hcap hq hwf
  refine ⟨hends, fun hreq hu => ⟨fun hown => ownResend_again hC hwf.count_le hu hreq hown, fun hfits => ?_⟩⟩
  exact ⟨fun h hown => (hown.loop hq hwf hu hreq hfits).not_drainEnds hC hcap h, hends⟩

namespace Instance

def ownRequest : Bytes :=
  controlFrame crypto bob .resend (relGen crypto bob.root) 0 ttFrameMax (draws 6)

def aliceAsked : TTSession :=
  (ttSessionFeed crypto (ttSessionSend crypto alice [1] ttFrameMax (draws 5)).1 aliceEnv (draws 7)
    ownRequest ttFrameDataMax).session

theorem aliceAsked_own : OwnResend crypto ttFrameMax aliceAsked ∧ aliceAsked.send.seq < 2 ^ 32 ∧
    SentWf aliceAsked.rel.sent ∧ Unwrapped aliceAsked ∧ aliceAsked.rel.resendReqPending = false ∧
    ∀ e ∈ wantedMsgs aliceAsked, AlwaysFits e := by
  have hf : aliceAsked.active = true ∧ aliceAsked.lossy = false ∧
      aliceAsked.rel.resendReqPending = false ∧ aliceAsked.rel.resendRepPending = true ∧
      aliceAsked.rel.resendRepGen = relGen crypto aliceAsked.root ∧ aliceAsked.rel.resendRepFrom = 0 ∧
      aliceAsked.send.seq = 2 ∧ aliceAsked.rel.sent.count ≤ ttSentMax ∧
      aliceAsked.rel.sent.entries = [⟨relGen crypto aliceAsked.root, 1, [1]⟩] ∧
      wantedMsgs aliceAsked = [⟨relGen crypto aliceAsked.root, 1, [1]⟩] ∧
      FrameRoom crypto aliceAsked false 1 ttFrameMax := by decide +kernel
  obtain ⟨ha, hl, hreq, hrep, hown, hfirst, hq, hc, he, hw, hroom⟩ := hf
  refine ⟨⟨ha, hl, hrep, hown, hfirst, ?_⟩, by rw [hq]; norm_num, ⟨hc, ?_⟩, ⟨by rw [hq]; decide, ?_⟩, hreq, ?_⟩
  · rw [hw]
    exact Or.inl hroom
  · rw [he]
    simp [ttFrameDataMax]
  · rw [hw, hq]
    simp
  · rw [hw]
    simp [AlwaysFits]

theorem aliceAsked_never_ends :
    (ttFrameDecode crypto ownRequest (controlKey crypto alice.root) 16).isSome ∧
      ∀ ρ n, (ttSessionRelPoll crypto (relDrain crypto ttFrameMax ρ n aliceAsked).1 ttFrameMax
        (ρ n)).2 ≠ [] := by
  refine ⟨by decide +kernel, fun ρ n => ?_⟩
  obtain ⟨hown, hq, hwf, hu, hreq, hfits⟩ := aliceAsked_own
  have hloop := hown.loop hq hwf hu hreq hfits
  exact ((hloop.drain aeadCorrect (le_refl ttFrameMax) ρ n).poll aeadCorrect (le_refl ttFrameMax) (ρ n)).1

theorem drainEnds_ownResend_asked :
    DrainEnds crypto ttFrameMax (aliceResending fullRing) ∧ ¬ DrainEnds crypto ttFrameMax aliceAsked := by
  constructor
  · have hf : (aliceResending fullRing).send.seq < 2 ^ 32 ∧
        (aliceResending fullRing).rel.resendRepGen ≠ relGen crypto (aliceResending fullRing).root := by
      decide +kernel
    have hdata : ∀ e ∈ fullRing.entries, e.data.length ≤ ttFrameDataMax := by decide
    apply (drainEnds_ownResend aeadCorrect (le_refl ttFrameMax) hf.1 ⟨by decide, hdata⟩).1
    rintro ⟨-, -, -, hg, -⟩
    exact hf.2 hg
  · obtain ⟨hown, hq, hwf, hu, hreq, hfits⟩ := aliceAsked_own
    have hloop := (drainEnds_ownResend aeadCorrect (le_refl ttFrameMax) hq hwf).2 hreq hu
    exact fun h => (hloop.2 hfits).mp h hown

end Instance

end TkTox
