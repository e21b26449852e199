import TkTox.ResendDrain

/-!
Draining the reliable transport. Polling stops, unless a RESEND asks for all of the generation the
re-sent messages are themselves tagged with, and one of them is re-sent.
-/

namespace TkTox

variable {C : Crypto} {s : TTSession} {cap : ℕ}

/-- One of the texts is re-sent: it fits beside the re-key header that is due, where those before it
did not and lost theirs. -/
def SomeResent (C : Crypto) (cap : ℕ) : TTSession → List TTSentMsg → Prop
  | _, [] => False
  | s, e :: es => FrameRoom C s false e.data.length cap ∨ ∃ ρ, SomeResent C cap (emitDrawn C s false ρ) es

def TTRekey.due (k : TTRekey) : Bool × Bool × Bool × Bool × Bool × Key × Key :=
  (k.postFoldPublish, k.rekeyDue, k.peerHave, k.awaitingPeer, k.publishBack, k.ephSk, k.peerEphPk)

structure SameDue (s t : TTSession) : Prop where
  lossy : s.lossy = t.lossy
  sinceFold : s.send.sinceFold = t.send.sinceFold
  due : s.rekey.due = t.rekey.due

theorem SameDue.autoRekey {s t : TTSession} (h : SameDue s t) :
    (TkTox.autoRekey s).due = (TkTox.autoRekey t).due := by
  obtain ⟨-, hn, hd⟩ := h
  simp only [TTRekey.due, Prod.mk.injEq] at hd
  obtain ⟨h1, h2, h3, h4, h5, h6, h7⟩ := hd
  unfold TkTox.autoRekey
  rw [h4, hn]
  split_ifs <;> simp only [TTRekey.due, h1, h2, h3, h4, h5, h6, h7]

theorem SameDue.hdrLen {s t : TTSession} (h : SameDue s t) (C : Crypto) (b : Bool) :
    dueHdrLen C s b = dueHdrLen C t b := by
  obtain ⟨hl, hn, hd⟩ := h
  simp only [TTRekey.due, Prod.mk.injEq] at hd
  obtain ⟨h1, h2, h3, h4, h5, h6, h7⟩ := hd
  rw [dueHdrLen, dueHdrLen, rekeyWanted, rekeyWanted, hl, hn, h1, h2, h3, h4, h5, h6, h7]

theorem ensureKem_due (k : TTRekey) (ρ : Draws) : (ensureKem C k ρ).due = k.due := by
  unfold ensureKem
  split_ifs <;> rfl

theorem selectHdr_due {k k' : TTRekey} (h : k.due = k'.due) (ρ σ : Draws) :
    (selectHdr C k ρ).rekey.due = (selectHdr C k' σ).rekey.due := by
  have he := (ensureKem_due (C := C) k ρ).trans (h.trans (ensureKem_due (C := C) k' σ).symm)
  have hk := h
  simp only [TTRekey.due, Prod.mk.injEq] at h he
  obtain ⟨h1, h2, h3, h4, h5, h6, h7⟩ := h
  obtain ⟨e1, -, e3, -, e5, e6, e7⟩ := he
  unfold selectHdr
  simp only [h1, h2, h3, h4, h5, h6, h7]
  split_ifs
  · simp only [TTRekey.due]
  · split <;> exact hk
  · simp only [TTRekey.due, e1, e3, e5, e6, e7]
  · simp only [TTRekey.due]
  · exact hk

theorem SameDue.drawn {s t : TTSession} (h : SameDue s t) (ρ σ : Draws) :
    SameDue (emitDrawn C s false ρ) (emitDrawn C t false σ) := by
  refine ⟨h.lossy, h.sinceFold, ?_⟩
  change (emitHdr C s false ρ).rekey.due = (emitHdr C t false σ).rekey.due
  unfold emitHdr
  rw [h.lossy]
  by_cases hl : t.lossy = false ∨ false = true
  · rw [if_pos hl, if_pos hl]
    exact selectHdr_due h.autoRekey ρ σ
  · rw [if_neg hl, if_neg hl]
    exact h.autoRekey

theorem SomeResent.congr {l : List TTSentMsg} {s t : TTSession} (h : SameDue s t) (hs : SomeResent C cap s l) :
    SomeResent C cap t l := by
  induction l generalizing s t with
  | nil => exact hs
  | cons e l ih =>
    obtain hroom | ⟨ρ, hs⟩ := hs
    · left
      rwa [FrameRoom, ← h.hdrLen]
    · exact Or.inr ⟨ρ, ih (h.drawn ρ ρ) hs⟩

/-- The pending RESEND asks a chat session for everything of the current generation, and there is a
text of it whose re-send encodes. -/
def OwnResend (C : Crypto) (cap : ℕ) (s : TTSession) : Prop :=
  s.active = true ∧ s.lossy = false ∧ s.rel.resendRepPending = true ∧
    s.rel.resendRepGen = relGen C s.root ∧ s.rel.resendRepFrom = 0 ∧ SomeResent C cap s (wantedMsgs s)

def DrainEnds (C : Crypto) (cap : ℕ) (s : TTSession) : Prop :=
  ∀ ρ : ℕ → ℕ → Draws, ∃ n, (ttSessionRelPoll C (relDrain C cap ρ n s).1 cap (ρ n)).2 = []

theorem drainEnds_of_poll (h : ∀ ρ, (ttSessionRelPoll C s cap ρ).2 = [] ∨
    DrainEnds C cap (ttSessionRelPoll C s cap ρ).1) : DrainEnds C cap s := by
  intro ρ
  cases h (ρ 0) with
  | inl h => exact ⟨0, h⟩
  | inr h =>
    obtain ⟨n, hn⟩ := h fun i => ρ (i + 1)
    exact ⟨n + 1, hn⟩

def headersLeft (k : TTRekey) : ℕ :=
  k.postFoldPublish.toNat + k.publishBack.toNat + (!k.awaitingPeer).toNat + k.peerHave.toNat

theorem headersLeft_autoRekey (s : TTSession) : headersLeft (autoRekey s) = headersLeft s.rekey := by
  rw [autoRekey_eq]
  rfl

theorem selectHdr_headersLeft (k : TTRekey) (ρ : Draws) :
    (headersLeft (selectHdr C k ρ).rekey < headersLeft k ∧ (selectHdr C k ρ).fold = none) ∨
    (k.postFoldPublish = false ∧ k.rekeyDue = true ∧ k.peerHave = true ∧
      (ttDhShared C k.ephSk k.peerEphPk).isSome ∧ (selectHdr C k ρ).rekey = k ∧
      (selectHdr C k ρ).fold.isSome) ∨
    ((selectHdr C k ρ).hdr = [] ∧ (selectHdr C k ρ).rekey = k ∧ (selectHdr C k ρ).fold = none) := by
  have hle (b : Bool) : b.toNat ≤ 1 := Bool.toNat_le b
  have hb := hle k.publishBack
  obtain ⟨h1, h⟩ | ⟨-, -, -, -, h⟩ | ⟨h1, h2, h3, dh, hd, h⟩ | ⟨-, -, -, h4, h⟩ | ⟨-, -, h5, h⟩ |
    ⟨-, -, -, h⟩ := selectHdr_cases C k ρ <;> rw [h]
  · refine Or.inl ⟨?_, rfl⟩
    simp only [headersLeft, h1, Bool.toNat_true, Bool.toNat_false]
    omega
  · exact Or.inr (Or.inr ⟨rfl, rfl, rfl⟩)
  · exact Or.inr (Or.inl ⟨h1, h2, h3, by rw [hd]; rfl, rfl, rfl⟩)
  · refine Or.inl ⟨?_, rfl⟩
    have hk : (ensureKem C k ρ).postFoldPublish = k.postFoldPublish ∧
        (ensureKem C k ρ).publishBack = k.publishBack ∧
        (ensureKem C k ρ).peerHave = k.peerHave := by
      unfold ensureKem
      split_ifs <;> exact ⟨rfl, rfl, rfl⟩
    simp only [headersLeft, hk, h4, Bool.not_true, Bool.not_false, Bool.toNat_true,
      Bool.toNat_false]
    omega
  · refine Or.inl ⟨?_, rfl⟩
    simp only [headersLeft, h5, Bool.toNat_true, Bool.toNat_false]
    omega
  · exact Or.inr (Or.inr ⟨rfl, rfl, rfl⟩)

theorem finishFold_headersLeft (t : TTSession) (fold : Option (Key × Key)) :
    headersLeft (finishFold C t fold).rekey ≤ headersLeft t.rekey ∧
      (fold.isSome → t.rekey.peerHave = true →
        headersLeft (finishFold C t fold).rekey < headersLeft t.rekey) := by
  cases fold with
  | none => exact ⟨le_rfl, fun h => by cases h⟩
  | some p =>
    constructor
    · simp only [finishFold, headersLeft, Bool.toNat_false]
      omega
    · intro _ hp
      simp only [finishFold, headersLeft, hp, Bool.toNat_true, Bool.toNat_false]
      omega

theorem emitDone_headersLeft (text : TTSentBuf → Bytes) (b : Bool) (ρ : Draws) (f : Bytes) :
    headersLeft (emitDone C s text b ρ f).rekey ≤ headersLeft (emitHdr C s b ρ).rekey ∧
      ((emitHdr C s b ρ).fold.isSome → (emitHdr C s b ρ).rekey.peerHave = true →
        headersLeft (emitDone C s text b ρ f).rekey < headersLeft (emitHdr C s b ρ).rekey) := by
  have hpark (t : TTSession) (hdr frame : Bytes) :
      headersLeft (parkCarrier t hdr frame).rekey = headersLeft t.rekey := by
    unfold parkCarrier
    split_ifs <;> rfl
  unfold emitDone
  rw [hpark]
  have h := fun t => finishFold_headersLeft (C := C) t (emitHdr C s b ρ).fold
  split_ifs
  · exact h (emitDrawn C s b ρ)
  · exact h { emitDrawn C s b ρ with rel := { s.rel with
      sent := relSentAdd s.rel.sent (relGen C s.root) s.send.seq text } }

theorem emit_headersLeft (text : TTSentBuf → Bytes) (ρ : Draws) (f : Bytes) :
    headersLeft (emitDone C s text false ρ f).rekey ≤ headersLeft s.rekey ∧
      (dueHdrLen C s false ≠ 0 →
        headersLeft (emitDone C s text false ρ f).rekey < headersLeft s.rekey ∧
        (headersLeft (emitDrawn C s false ρ).rekey < headersLeft s.rekey ∨
          headersLeft (emitDrawn C s false ρ).rekey = headersLeft s.rekey ∧
            dueHdrLen C (emitDrawn C s false ρ) false ≠ 0)) := by
  obtain ⟨hle, hlt⟩ := emitDone_headersLeft (C := C) (s := s) text false ρ f
  have hlen := emitHdr_length (C := C) (s := s) (ρ := ρ) false
  cases hl : s.lossy with
  | true =>
    have hh : emitHdr C s false ρ = ⟨autoRekey s, [], 0, none⟩ := if_neg (by simp [hl])
    rw [hh] at hle hlen
    refine ⟨hle.trans (headersLeft_autoRekey s).le, fun hdue => absurd ?_ hdue⟩
    rw [← hlen]
    rfl
  | false =>
    have hh : emitHdr C s false ρ = selectHdr C (autoRekey s) ρ := if_pos (Or.inl hl)
    have hk : (emitDrawn C s false ρ).rekey = (emitHdr C s false ρ).rekey := rfl
    rw [hk]
    rw [hh] at hle hlt hlen ⊢
    have ha := headersLeft_autoRekey s
    obtain ⟨h, -⟩ | ⟨h1, h2, h3, hd, hr, hf⟩ | ⟨h, hr, -⟩ :=
      selectHdr_headersLeft (C := C) (autoRekey s) ρ
    · rw [ha] at h
      exact ⟨by omega, fun _ => ⟨by omega, Or.inl h⟩⟩
    · rw [hr] at hle hlt ⊢
      have hlt' := hlt hf h3
      refine ⟨by omega, fun _ => ⟨by omega, Or.inr ⟨ha, ?_⟩⟩⟩
      -- a REKEY that did not fit is due again
      have hrek : (emitDrawn C s false ρ).rekey = autoRekey s := by
        rw [hk, hh, hr]
      have hwant : rekeyWanted (emitDrawn C s false ρ) = true := by
        rw [rekeyWanted, hrek, h2]
        rfl
      have hlossy : (emitDrawn C s false ρ).lossy = false := hl
      rw [dueHdrLen, hrek, hlossy, h1, h3, hwant, hd]
      simp
    · rw [hr] at hle ⊢
      refine ⟨by omega, fun hdue => absurd ?_ hdue⟩
      rw [← hlen, h]
      rfl

structure DrainInv (C : Crypto) (s : TTSession) : Prop where
  active : s.active = true
  req : s.rel.resendReqPending = false
  rep : s.rel.resendRepPending = true
  other : s.lossy = false → s.rel.resendRepGen = relGen C s.root → s.rel.resendRepFrom ≠ 0
  seq : s.send.seq < 2 ^ 32
  wf : SentWf s.rel.sent

theorem DrainInv.of_emit {s' : TTSession} {b : TTSentBuf} (h : DrainInv C s)
    (ha : s'.active = s.active) (hl : s'.lossy = s.lossy) (hroot : s'.root = s.root) (hrel : s'.rel = { s.rel with sent := b })
    (hq : s'.send.seq < 2 ^ 32) (hb : SentWf b) : DrainInv C s' := by
  refine ⟨ha.trans h.active, ?_, ?_, ?_, hq, ?_⟩
  · rw [hrel]
    exact h.req
  · rw [hrel]
    exact h.rep
  · rw [hrel, hroot, hl]
    exact h.other
  · rw [hrel]
    exact hb

theorem resendBuf_wf (hwf : SentWf s.rel.sent) {r : ℕ} (hr : r < s.rel.sent.count) :
    SentWf (resendBuf C s r) := by
  have hcell := entries_getElem hr
  obtain ⟨hlt, hget⟩ := List.getElem?_eq_some_iff.mp hcell
  have he : s.rel.sent.entries = s.rel.sent.entries.take r ++
      s.rel.sent.m (sentIdx (s.rel.sent.head + r)) :: s.rel.sent.entries.drop (r + 1) := by
    rw [← hget, List.cons_getElem_drop_succ, List.take_append_drop]
  have hlen : (s.rel.sent.entries.take r).length = r := by
    rw [List.length_take]
    omega
  have hdata : ∀ e ∈ s.rel.sent.entries.take r ++
      s.rel.sent.m (sentIdx (s.rel.sent.head + r)) :: s.rel.sent.entries.drop (r + 1),
      e.data.length ≤ ttFrameDataMax := he ▸ hwf.data_le
  rw [← hlen]
  cases hl : s.lossy with
  | true =>
    obtain ⟨h1, h2⟩ := resendBuf_entries_lossy (C := C) hwf.count_le hl he
    refine ⟨h2, fun e hm => ?_⟩
    rw [h1] at hm
    exact hdata e (List.mem_of_mem_filter hm)
  | false =>
    obtain ⟨h1, h2⟩ := resendBuf_entries (C := C) hwf.count_le hl he
    refine ⟨h2, fun e hm => ?_⟩
    rw [h1] at hm
    obtain hm | hm := List.mem_append.mp (List.mem_of_mem_filter hm)
    · split_ifs at hm
      · exact hdata e (List.mem_of_mem_tail hm)
      · exact hdata e hm
    · rw [List.mem_singleton.mp hm, freshMsg, rebuffered_length]
      exact hdata _ (by simp)

theorem relResend_progress (hC : C.AeadCorrect) (hcap : ttFrameMax ≤ cap) (ρ : ℕ → Draws) (n : ℕ)
    {r : ℕ} (h : DrainInv C s) (hr : r + n ≤ s.rel.sent.count)
    (hne : (relResend C cap ρ n r s).2 ≠ []) :
    DrainInv C (relResend C cap ρ n r s).1 ∧
      headersLeft (relResend C cap ρ n r s).1.rekey ≤ headersLeft s.rekey ∧
      (dueHdrLen C s false ≠ 0 →
        headersLeft (relResend C cap ρ n r s).1.rekey < headersLeft s.rekey) := by
  induction n generalizing r s with
  | zero => exact absurd rfl hne
  | succ n ih =>
    have hlt : r < s.rel.sent.count := by omega
    cases hw : wantedBy s.rel (s.rel.sent.m (sentIdx (s.rel.sent.head + r))) with
    | false =>
      rw [relResend_skip hw] at hne ⊢
      exact ih h (by omega) hne
    | true =>
      have hemit (f : Bytes) :=
        emit_headersLeft (C := C) (s := s) (resendText s.rel.sent r) (ρ r) f
      obtain ⟨-, he⟩ | ⟨-, hnone, he⟩ | ⟨-, f, -, -, he⟩ :=
        relResend_attempt C cap ρ hw n
      · rw [he] at hne ⊢
        exact ih h (by omega) hne
      · have hdue : dueHdrLen C s false ≠ 0 := by
          intro hdue
          have hmem := List.mem_of_getElem? (entries_getElem hlt)
          have hroom : FrameRoom C s false (resendText s.rel.sent r s.rel.sent).length cap := by
            rw [resendText_now]
            exact frameRoom_plain hdue hcap (h.wf.data_le _ hmem)
          rw [← emitEncode_isSome_iff hC (ρ := ρ r), hnone] at hroom
          cases hroom
        rw [he] at hne ⊢
        obtain ⟨hinv, hle, hlt'⟩ := ih (s := emitDrawn C s false (ρ r))
          (h.of_emit (b := s.rel.sent) rfl rfl rfl rfl (seqNext_lt _) h.wf)
          (by change r + 1 + n ≤ s.rel.sent.count; omega) hne
        obtain ⟨-, hdrawn⟩ := (hemit []).2 hdue
        cases hdrawn with
        | inl hd => exact ⟨hinv, by omega, fun _ => by omega⟩
        | inr hd =>
          have := hlt' hd.2
          exact ⟨hinv, by omega, fun _ => by omega⟩
      · rw [he]
        have hframe := emitDone_frame (C := C) (s := s) (resendText s.rel.sent r) false (ρ r) f
        refine ⟨h.of_emit (emitDone_active _ _ _) hframe.1 hframe.2 rfl ?_ (resendBuf_wf h.wf hlt), ?_⟩
        · change (emitDone C s _ false (ρ r) f).send.seq < 2 ^ 32
          rw [emitDone_seq]
          exact seqNext_lt _
        · exact ⟨(hemit f).1, fun hdue => ((hemit f).2 hdue).1⟩

theorem relResend_blocked (hl : s.lossy = true) (hc : s.rekey.carrier ≠ []) (ρ : ℕ → Draws)
    (n r : ℕ) : (relResend C cap ρ n r s).2 = [] := by
  induction n generalizing r with
  | zero => rfl
  | succ n ih =>
    cases hw : wantedBy s.rel (s.rel.sent.m (sentIdx (s.rel.sent.head + r))) with
    | false => rw [relResend_skip hw, ih]
    | true =>
      obtain ⟨-, he⟩ | ⟨hb, -⟩ | ⟨hb, -⟩ :=
        relResend_attempt C cap ρ hw n
      · rw [he, ih]
      · exact absurd (hb hl) hc
      · exact absurd (hb hl) hc

def drainMeasure (s : TTSession) : ℕ :=
  headersLeft s.rekey * (34 * 2 ^ 32) + (wantedMsgs s).length * 2 ^ 32 +
    (2 ^ 32 - s.send.seq) % 2 ^ 32

theorem wantedMsgs_length_le (hwf : SentWf s.rel.sent) : (wantedMsgs s).length ≤ 32 := by
  have h : s.rel.sent.entries.length = s.rel.sent.count := Ring.entries_length
  have := hwf.count_le
  simp only [ttSentMax] at this
  exact (List.length_filter_le _ _).trans (by omega)

theorem filter_sameTag_length_le {A B : List TTSentMsg} {w : TTSentMsg} {p : TTSentMsg → Bool}
    (hA : ∀ e ∈ A, p e = false) :
    (((A ++ w :: B).filter fun e => !sameTag w e).filter p).length ≤ (B.filter p).length := by
  have hnil : (A.filter fun e => !sameTag w e).filter p = [] := by
    apply List.filter_eq_nil_iff.mpr
    intro e hm
    simp [hA e (List.mem_of_mem_filter hm)]
  rw [List.filter_append, List.filter_cons_of_neg (by simp [sameTag_self]), List.filter_append, hnil,
    List.nil_append]
  exact (List.filter_sublist.filter p).length_le

theorem ResentOne.wantedMsgs_length_le {A B : List TTSentMsg} {w : TTSentMsg} {s' : TTSession}
    {f : Bytes} (h : ResentOne C s A w B s' f) (hA : ∀ e ∈ A, wantedBy s.rel e = false) :
    (wantedMsgs s').length ≤ (B.filter (wantedBy s.rel)).length +
      if s.lossy = false ∧ wantedBy s.rel (freshMsg C s (rebuffered s.rel.sent A w)) = true then 1
      else 0 := by
  have hold := filter_sameTag_length_le (w := w) (B := B) hA
  rw [wantedMsgs, h.wantedBy_eq]
  cases hl : s.lossy with
  | true =>
    rw [h.entries_lossy hl]
    exact hold.trans (Nat.le_add_right _ _)
  | false =>
    rw [h.entries hl, List.filter_append, List.filter_append, List.length_append]
    apply Nat.add_le_add
    · refine le_trans ?_ hold
      apply List.Sublist.length_le
      apply List.Sublist.filter
      apply List.Sublist.filter
      split_ifs
      · exact List.tail_sublist _
      · exact List.Sublist.refl _
    · refine (List.Sublist.filter _ List.filter_sublist).length_le.trans ?_
      rw [List.filter_singleton]
      cases wantedBy s.rel (freshMsg C s (rebuffered s.rel.sent A w)) <;> simp

theorem drainInv_poll (hC : C.AeadCorrect) (hcap : ttFrameMax ≤ cap) (h : DrainInv C s)
    (ρ : ℕ → Draws) : (ttSessionRelPoll C s cap ρ).2 = [] ∨
      DrainInv C (ttSessionRelPoll C s cap ρ).1 ∧
        drainMeasure (ttSessionRelPoll C s cap ρ).1 < drainMeasure s := by
  by_cases hne : (ttSessionRelPoll C s cap ρ).2 = []
  · exact Or.inl hne
  have hpoll : ttSessionRelPoll C s cap ρ = relResend C cap ρ s.rel.sent.count 0 s := by
    rw [ttSessionRelPoll, if_neg (by simp [h.active]), if_neg (by simp [h.req]), if_pos h.rep]
  have hinv := relResend_progress hC hcap ρ s.rel.sent.count (r := 0) h (by omega) (hpoll ▸ hne)
  rw [← hpoll] at hinv
  obtain ⟨hinv, hle, hlt⟩ := hinv
  refine Or.inr ⟨hinv, ?_⟩
  have hwl := wantedMsgs_length_le hinv.wf
  unfold drainMeasure
  by_cases hdue : dueHdrLen C s false = 0
  · have hfree : s.lossy = true → s.rekey.carrier = [] := by
      intro hl
      by_contra hc
      exact hne (hpoll ▸ relResend_blocked hl hc ρ _ _)
    cases hW : wantedMsgs s with
    | nil =>
      rw [hpoll, relResend_none hW _ (by omega)] at hne
      exact absurd rfl hne
    | cons w ws =>
      obtain ⟨A, B, he, hA, hw, hB⟩ := List.filter_eq_cons_iff.mp hW
      have hA' : ∀ e ∈ A, wantedBy s.rel e = false := fun e h => by simpa using hA e h
      have hone := ttSessionRelPoll_resend (ρ := ρ) hC h.active h.req h.rep hfree h.wf he
        (frameRoom_plain hdue hcap (h.wf.data_le w (by rw [he]; simp))) hA' hw
      have hwle := hone.wantedMsgs_length_le hA'
      have hq := hone.seq
      have hs := h.seq
      rw [hB] at hwle
      rw [hq, List.length_cons, seqNext]
      split_ifs at hwle with hfresh
      · obtain ⟨hl, hfresh⟩ := hfresh
        rw [wantedBy, resendWanted, Bool.and_eq_true, beq_iff_eq, decide_eq_true_eq] at hfresh
        have hfrom := h.other hl hfresh.1.symm
        have hfirst : s.rel.resendRepFrom ≤ s.send.seq := hfresh.2
        omega
      · omega
  · have := hlt hdue
    omega

theorem drainEnds_reply (hC : C.AeadCorrect) (hcap : ttFrameMax ≤ cap) (h : DrainInv C s) :
    DrainEnds C cap s := by
  induction hm : drainMeasure s using Nat.strong_induction_on generalizing s with
  | _ m ih =>
    apply drainEnds_of_poll
    intro ρ
    obtain he | ⟨hinv, hlt⟩ := drainInv_poll hC hcap h ρ
    · exact Or.inl he
    · exact Or.inr (ih _ (hm ▸ hlt) hinv rfl)

theorem relResend_stuck (hC : C.AeadCorrect) (hl : s.lossy = false) (ρ : ℕ → Draws) (n : ℕ) {r : ℕ}
    (hr : r + n = s.rel.sent.count)
    (hno : ¬ SomeResent C cap s ((s.rel.sent.entries.drop r).filter (wantedBy s.rel))) :
    (relResend C cap ρ n r s).2 = [] := by
  induction n generalizing r s with
  | zero => rfl
  | succ n ih =>
    have hlt : r < s.rel.sent.count := by omega
    obtain ⟨hlen, hcell⟩ := List.getElem?_eq_some_iff.mp (entries_getElem hlt)
    rw [List.drop_eq_getElem_cons hlen, hcell] at hno
    cases hw : wantedBy s.rel (s.rel.sent.m (sentIdx (s.rel.sent.head + r))) with
    | false =>
      rw [List.filter_cons_of_neg (by simp [hw])] at hno
      rw [relResend_skip hw]
      exact ih hl (by omega) hno
    | true =>
      rw [List.filter_cons_of_pos hw, SomeResent, not_or, not_exists] at hno
      obtain ⟨⟨hlossy, -⟩, -⟩ | ⟨-, -, he⟩ | ⟨-, f, -, hf, -⟩ := relResend_attempt C cap ρ hw n
      · rw [hl] at hlossy
        cases hlossy
      · rw [he]
        exact ih (s := emitDrawn C s false (ρ r)) hl (show r + 1 + n = s.rel.sent.count by omega) (hno.2 _)
      · have hroom := (emitEncode_isSome_iff hC cap (resendText s.rel.sent r) false).mp
          (Option.isSome_of_eq_some hf)
        rw [resendText_now] at hroom
        exact absurd hroom hno.1

theorem drainEnds_idle (hreq : s.rel.resendReqPending = false)
    (hrep : s.rel.resendRepPending = false) (hack : s.rel.ackDue = false) :
    DrainEnds C cap s := by
  apply drainEnds_of_poll
  intro ρ
  left
  simp [ttSessionRelPoll, hreq, hrep, hack]

theorem drainEnds_answered (hC : C.AeadCorrect) (hcap : ttFrameMax ≤ cap)
    (hq : s.send.seq < 2 ^ 32) (hwf : SentWf s.rel.sent) (ha : s.active = true)
    (hreq : s.rel.resendReqPending = false) (h : ¬ OwnResend C cap s) : DrainEnds C cap s := by
  cases hrep : s.rel.resendRepPending with
  | false =>
    cases hd : s.rel.ackDue with
    | false => exact drainEnds_idle hreq hrep hd
    | true =>
      apply drainEnds_of_poll
      intro ρ
      right
      have hp : (ttSessionRelPoll C s cap ρ).1 =
          { s with rel := { s.rel with ackDue := false } } := by
        rw [ttSessionRelPoll, if_neg (by simp [ha]), if_neg (by simp [hreq]),
          if_neg (by simp [hrep]), if_pos hd]
      rw [hp]
      exact drainEnds_idle hreq hrep rfl
  | true =>
    by_cases hown : s.lossy = false ∧ s.rel.resendRepGen = relGen C s.root ∧ s.rel.resendRepFrom = 0
    -- all of the current generation is asked for, but nothing of it is re-sent
    · apply drainEnds_of_poll
      intro ρ
      left
      rw [ttSessionRelPoll, if_neg (by simp [ha]), if_neg (by simp [hreq]), if_pos hrep]
      apply relResend_stuck hC hown.1 ρ _ (Nat.zero_add _)
      rw [List.drop_zero]
      exact fun hsome => h ⟨ha, hown.1, hrep, hown.2.1, hown.2.2, hsome⟩
    · exact drainEnds_reply hC hcap ⟨ha, hreq, hrep, fun hl hg hf => hown ⟨hl, hg, hf⟩, hq, hwf⟩

theorem drainEnds_of_not_ownResend (hC : C.AeadCorrect) (hcap : ttFrameMax ≤ cap)
    (hq : s.send.seq < 2 ^ 32) (hwf : SentWf s.rel.sent) (h : ¬ OwnResend C cap s) :
    DrainEnds C cap s := by
  cases ha : s.active with
  | false =>
    apply drainEnds_of_poll
    intro ρ
    left
    rw [ttSessionRelPoll, if_pos ha]
  | true =>
    cases hreq : s.rel.resendReqPending with
    | false => exact drainEnds_answered hC hcap hq hwf ha hreq h
    | true =>
      apply drainEnds_of_poll
      intro ρ
      right
      rw [ttSessionRelPoll, if_neg (by simp [ha]), if_pos hreq]
      refine drainEnds_answered hC hcap hq hwf ha rfl ?_
      rintro ⟨-, hl, hp, hg, hf, hs⟩
      have hdue : SameDue { s with rel := { s.rel with resendReqPending := false } } s := ⟨rfl, rfl, rfl⟩
      exact h ⟨ha, hl, hp, hg, hf, SomeResent.congr hdue hs⟩

end TkTox
