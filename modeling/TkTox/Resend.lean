import TkTox.SendAtomic

/-!
Answering a RESEND: one message a poll, re-sent under the fresh chain and buffered again.
-/

namespace TkTox

variable {C : Crypto} {s : TTSession} {cap : ℕ} {ρ : ℕ → Draws}

def resendWanted (g first : ℕ) (e : TTSentMsg) : Bool := e.gen == g && decide (first ≤ e.seq)

def wantedBy (r : TTReliable) : TTSentMsg → Bool := resendWanted r.resendRepGen r.resendRepFrom

def wantedMsgs (s : TTSession) : List TTSentMsg := s.rel.sent.entries.filter (wantedBy s.rel)

structure SentWf (b : TTSentBuf) : Prop where
  count_le : b.count ≤ ttSentMax
  data_le : ∀ e ∈ b.entries, e.data.length ≤ ttFrameDataMax

theorem emitHdr_plain (hdue : dueHdrLen C s false = 0) (ρ : Draws) :
    (emitHdr C s false ρ).hdr = [] ∧ (emitHdr C s false ρ).fold = none := by
  have hl := emitHdr_length (C := C) (s := s) (ρ := ρ) false
  rw [hdue] at hl
  refine ⟨List.eq_nil_of_length_eq_zero hl, ?_⟩
  obtain ⟨-, -, h⟩ | ⟨-, -, h⟩ | ⟨h, -, -⟩ := emitHdr_fits C s false ρ
  · exact h
  · exact h
  · rw [hl] at h
    cases h

-- What the addition buffers: the text argument as it reads once the ring has room.
def sentAfter (C : Crypto) (s : TTSession) (text : TTSentBuf → Bytes) : TTSentBuf :=
  if s.lossy then s.rel.sent else relSentAdd s.rel.sent (relGen C s.root) s.send.seq text

theorem emitDone_rel (text : TTSentBuf → Bytes) (b : Bool) (ρ : Draws) (f : Bytes) :
    (emitDone C s text b ρ f).rel = { s.rel with sent := sentAfter C s text } := by
  unfold emitDone sentAfter parkCarrier finishFold
  cases (emitHdr C s b ρ).fold <;> split_ifs <;> rfl

theorem emitDone_frame (text : TTSentBuf → Bytes) (b : Bool) (ρ : Draws) (f : Bytes) :
    (emitDone C s text b ρ f).lossy = s.lossy ∧ (emitDone C s text b ρ f).root = s.root := by
  unfold emitDone parkCarrier finishFold
  cases (emitHdr C s b ρ).fold <;> split_ifs <;> exact ⟨rfl, rfl⟩

theorem emitDone_plain (hdue : dueHdrLen C s false = 0) (text : TTSentBuf → Bytes) (ρ : Draws)
    (f : Bytes) : (emitDone C s text false ρ f).send.chain = nextChain C s.send.chain := by
  obtain ⟨-, hf⟩ := emitHdr_plain hdue ρ
  unfold emitDone parkCarrier finishFold
  rw [hf]
  split_ifs <;> rfl

theorem frameRoom_plain (hdue : dueHdrLen C s false = 0) (hcap : ttFrameMax ≤ cap) {len : ℕ}
    (hlen : len ≤ ttFrameDataMax) : FrameRoom C s false len cap := by
  unfold FrameRoom
  rw [hdue]
  simp only [ttFrameMax, ttFrameDataMax, ttFrameHeadMax, ttMac16, ttNonce12, ttNonce24]
    at hcap hlen ⊢
  split_ifs <;> omega

theorem entries_getElem {b : TTSentBuf} {p : ℕ} (hp : p < b.count) :
    b.entries[p]? = some (b.m (sentIdx (b.head + p))) := by
  simp [TTSentBuf.entries, Ring.entries, sentIdx, hp]

theorem relResend_skip {r : ℕ} (hw : wantedBy s.rel (s.rel.sent.m (sentIdx (s.rel.sent.head + r))) =
    false) (n : ℕ) : relResend C cap ρ (n + 1) r s = relResend C cap ρ n (r + 1) s := by
  rw [relResend]
  refine if_pos ?_
  by_contra h
  obtain ⟨h1, h2⟩ := not_or.mp h
  rw [wantedBy, resendWanted, not_not.mp h1, decide_eq_true (not_lt.mp h2)] at hw
  simp at hw

def resendText (b : TTSentBuf) (r : ℕ) : TTSentBuf → Bytes :=
  TTSentBuf.readSlot (sentIdx (b.head + r)) (b.m (sentIdx (b.head + r))).data.length

theorem resendText_now (b : TTSentBuf) (r : ℕ) :
    resendText b r b = (b.m (sentIdx (b.head + r))).data := by
  rw [resendText, TTSentBuf.readSlot, List.take_length, Nat.sub_self, List.replicate_zero,
    List.append_nil]

def resendBuf (C : Crypto) (s : TTSession) (r : ℕ) : TTSentBuf :=
  let msg := s.rel.sent.m (sentIdx (s.rel.sent.head + r))
  relSentRemove (sentAfter C s (resendText s.rel.sent r)) msg.gen msg.seq

theorem relResend_attempt (C : Crypto) (cap : ℕ) (ρ : ℕ → Draws) {r : ℕ}
    (hw : wantedBy s.rel (s.rel.sent.m (sentIdx (s.rel.sent.head + r))) = true) (n : ℕ) :
    ((s.lossy = true ∧ s.rekey.carrier ≠ []) ∧
      relResend C cap ρ (n + 1) r s = relResend C cap ρ n (r + 1) s) ∨
    ((s.lossy = true → s.rekey.carrier = []) ∧
      emitEncode C s (resendText s.rel.sent r) cap false (ρ r) = none ∧
      relResend C cap ρ (n + 1) r s = relResend C cap ρ n (r + 1) (emitDrawn C s false (ρ r))) ∨
    (s.lossy = true → s.rekey.carrier = []) ∧
      ∃ f, f ≠ [] ∧ emitEncode C s (resendText s.rel.sent r) cap false (ρ r) = some f ∧
      relResend C cap ρ (n + 1) r s =
        ({ emitDone C s (resendText s.rel.sent r) false (ρ r) f with
            rel := { s.rel with sent := resendBuf C s r } }, f) := by
  have hno : ¬ ((s.rel.sent.m (sentIdx (s.rel.sent.head + r))).gen ≠ s.rel.resendRepGen ∨
      (s.rel.sent.m (sentIdx (s.rel.sent.head + r))).seq < s.rel.resendRepFrom) := by
    rw [wantedBy, resendWanted, Bool.and_eq_true, beq_iff_eq, decide_eq_true_eq] at hw
    exact not_or.mpr ⟨not_not.mpr hw.1, not_lt.mpr hw.2⟩
  rw [relResend]
  dsimp only
  rw [if_neg hno]
  obtain ⟨hl, hc, h⟩ | ⟨hb, hn, h⟩ | ⟨hb, f, hf, h⟩ :=
    emitFrame_cases C s (resendText s.rel.sent r) cap false (ρ r)
  · rw [resendText] at h
    rw [h]
    exact Or.inl ⟨⟨hl, hc⟩, rfl⟩
  · refine Or.inr (Or.inl ⟨hb, hn, ?_⟩)
    rw [resendText] at h
    rw [h]
  · obtain ⟨-, -, hne⟩ := emitEncode_length_le hf
    refine Or.inr (Or.inr ⟨hb, f, hne, hf, ?_⟩)
    rw [resendText] at h
    rw [h]
    cases f with
    | nil => exact absurd rfl hne
    | cons x f =>
      dsimp only
      rw [← resendText, emitDone_rel]
      rfl

variable {A B : List TTSentMsg} {w : TTSentMsg}

theorem entry_at (he : s.rel.sent.entries = A ++ w :: B) :
    A.length < s.rel.sent.count ∧
      s.rel.sent.m (sentIdx (s.rel.sent.head + A.length)) = w := by
  have hc : s.rel.sent.entries.length = s.rel.sent.count := Ring.entries_length
  have hlt : A.length < s.rel.sent.count := by
    rw [← hc, he, List.length_append, List.length_cons]
    omega
  refine ⟨hlt, ?_⟩
  have h := entries_getElem hlt
  rw [he, List.getElem?_append_right le_rfl, Nat.sub_self] at h
  exact (Option.some.inj h).symm

def rebuffered (b : TTSentBuf) (A : List TTSentMsg) (w : TTSentMsg) : Bytes :=
  if b.count = ttSentMax ∧ A = [] then List.replicate w.data.length 0 else w.data

theorem resendText_room (hb : s.rel.sent.count ≤ ttSentMax)
    (he : s.rel.sent.entries = A ++ w :: B) :
    resendText s.rel.sent A.length (relSentRoom s.rel.sent) = rebuffered s.rel.sent A w := by
  obtain ⟨hlt, hw⟩ := entry_at he
  unfold resendText TTSentBuf.readSlot relSentRoom rebuffered
  rw [hw]
  by_cases hf : s.rel.sent.count = ttSentMax
  · rw [if_pos hf.ge]
    cases A with
    | nil =>
      rw [if_pos ⟨hf, rfl⟩]
      simp [TTSentMsg.zero]
    | cons a A =>
      have hne : sentIdx (s.rel.sent.head + (a :: A).length) ≠ sentIdx s.rel.sent.head := by
        intro h
        have h0 : sentIdx (s.rel.sent.head + (a :: A).length) =
            sentIdx (s.rel.sent.head + 0) := h
        have := Ring.idx_inj (by omega) (by norm_num) h0
        simp at this
      rw [if_neg (by simp)]
      dsimp only
      rw [Function.update_of_ne hne, hw, List.take_length, Nat.sub_self, List.replicate_zero,
        List.append_nil]
  · have hno : ¬ (s.rel.sent.count = ttSentMax ∧ A = []) := by
      intro h
      exact hf h.1
    rw [if_neg (by omega), if_neg hno, hw, List.take_length, Nat.sub_self, List.replicate_zero,
      List.append_nil]

def freshMsg (C : Crypto) (s : TTSession) (data : Bytes) : TTSentMsg :=
  ⟨relGen C s.root, s.send.seq, data⟩

def sameTag (w e : TTSentMsg) : Bool := e.gen == w.gen && e.seq == w.seq

theorem resendBuf_entries (hb : s.rel.sent.count ≤ ttSentMax) (hl : s.lossy = false)
    (he : s.rel.sent.entries = A ++ w :: B) :
    (resendBuf C s A.length).entries =
        ((if s.rel.sent.count = ttSentMax then (A ++ w :: B).tail else A ++ w :: B) ++
          [freshMsg C s (rebuffered s.rel.sent A w)]).filter
            (fun e => !sameTag w e) ∧
      (resendBuf C s A.length).count ≤ ttSentMax := by
  obtain ⟨-, hw⟩ := entry_at he
  obtain ⟨hadd, hc⟩ := relSentAdd_entries hb (relGen C s.root) s.send.seq
    (resendText s.rel.sent A.length)
  obtain ⟨hk, hle⟩ := relCompact_entries hc (sameTag w)
  have hs : sentAfter C s (resendText s.rel.sent A.length) =
      relSentAdd s.rel.sent (relGen C s.root) s.send.seq (resendText s.rel.sent A.length) :=
    if_neg (by simp [hl])
  have hbuf : resendBuf C s A.length = relCompact (sameTag w) (relSentAdd s.rel.sent
      (relGen C s.root) s.send.seq (resendText s.rel.sent A.length)) := by
    rw [resendBuf, hw, hs]
    rfl
  rw [hbuf, hk, hadd, resendText_room hb he, he]
  exact ⟨rfl, hle.trans hc⟩

theorem resendBuf_entries_lossy (hb : s.rel.sent.count ≤ ttSentMax) (hl : s.lossy = true)
    (he : s.rel.sent.entries = A ++ w :: B) :
    (resendBuf C s A.length).entries = (A ++ w :: B).filter (fun e => !sameTag w e) ∧
      (resendBuf C s A.length).count ≤ ttSentMax := by
  obtain ⟨-, hw⟩ := entry_at he
  obtain ⟨hk, hle⟩ := relCompact_entries hb (sameTag w)
  have hs : sentAfter C s (resendText s.rel.sent A.length) = s.rel.sent := if_pos hl
  have hbuf : resendBuf C s A.length = relCompact (sameTag w) s.rel.sent := by
    rw [resendBuf, hw, hs]
    rfl
  rw [hbuf, hk, he]
  exact ⟨rfl, hle.trans hb⟩

theorem relResend_to_first (C : Crypto) (cap : ℕ) (ρ : ℕ → Draws) (he : s.rel.sent.entries = A ++ w :: B)
    (hA : ∀ e ∈ A, wantedBy s.rel e = false) (n : ℕ) {k : ℕ} (hk : k ≤ A.length) :
    relResend C cap ρ (n + k) (A.length - k) s = relResend C cap ρ n A.length s := by
  induction k with
  | zero => rfl
  | succ k ih =>
    have hlt : A.length - (k + 1) < s.rel.sent.count := by
      have := (entry_at he).1
      omega
    have hcell := entries_getElem hlt
    rw [he, List.getElem?_append_left (by omega)] at hcell
    have hskip := hA _ (List.mem_of_getElem? hcell)
    rw [← ih (by omega), ← Nat.add_assoc, relResend_skip hskip]
    congr 1
    omega

theorem relResend_none (hW : wantedMsgs s = []) (n : ℕ) {r : ℕ} (hr : r + n ≤ s.rel.sent.count) :
    relResend C cap ρ n r s =
      ({ s with rel := { s.rel with resendRepPending := false } }, []) := by
  induction n generalizing r with
  | zero => rfl
  | succ n ih =>
    have hlt : r < s.rel.sent.count := by omega
    have hmem := List.mem_of_getElem? (entries_getElem hlt)
    have hskip := List.filter_eq_nil_iff.mp hW _ hmem
    rw [relResend_skip (by simpa using hskip), ih (by omega)]

theorem emitEncode_decode (hC : C.AeadCorrect) (hs : s.send.seq < 2 ^ 32)
    {text : TTSentBuf → Bytes} {b : Bool} {ρ : Draws} {f : Bytes}
    (h : emitEncode C s text cap b ρ = some f) (hlen : (text s.rel.sent).length ≤ ttFrameDataMax) :
    ∃ d, ttFrameDecode C f (chainMaterial C s.send.chain).1 ttFrameDataMax =
      some (d, text s.rel.sent) ∧ d.type = some .data ∧ d.seq = s.send.seq :=
  ⟨_, ttFrameDecode_encode hC _ hs h hlen, rfl, rfl⟩

structure ResentOne (C : Crypto) (s : TTSession) (A : List TTSentMsg) (w : TTSentMsg)
    (B : List TTSentMsg) (s' : TTSession) (f : Bytes) : Prop where
  active : s'.active = s.active
  lossy : s'.lossy = s.lossy
  root : s'.root = s.root
  rel : ∃ b, s'.rel = { s.rel with sent := b }
  seq : s'.send.seq = seqNext s.send.seq
  chain : dueHdrLen C s false = 0 → s'.send.chain = nextChain C s.send.chain
  entries : s.lossy = false → s'.rel.sent.entries =
    ((if s.rel.sent.count = ttSentMax then (A ++ w :: B).tail else A ++ w :: B) ++
      [freshMsg C s (rebuffered s.rel.sent A w)]).filter (fun e => !sameTag w e)
  entries_lossy : s.lossy = true →
    s'.rel.sent.entries = (A ++ w :: B).filter (fun e => !sameTag w e)
  count_le : s'.rel.sent.count ≤ ttSentMax
  ne_nil : f ≠ []
  frame : s.send.seq < 2 ^ 32 → ∃ d, ttFrameDecode C f (chainMaterial C s.send.chain).1
    ttFrameDataMax = some (d, w.data) ∧ d.type = some .data ∧ d.seq = s.send.seq

theorem ttSessionRelPoll_resend (hC : C.AeadCorrect) (ha : s.active = true)
    (hreq : s.rel.resendReqPending = false) (hrep : s.rel.resendRepPending = true)
    (hfree : s.lossy = true → s.rekey.carrier = []) (hwf : SentWf s.rel.sent)
    (he : s.rel.sent.entries = A ++ w :: B) (hroom : FrameRoom C s false w.data.length cap)
    (hA : ∀ e ∈ A, wantedBy s.rel e = false) (hw : wantedBy s.rel w = true) :
    ResentOne C s A w B (ttSessionRelPoll C s cap ρ).1 (ttSessionRelPoll C s cap ρ).2 := by
  obtain ⟨hlt, hcell⟩ := entry_at he
  have hpoll : ttSessionRelPoll C s cap ρ =
      relResend C cap ρ (s.rel.sent.count - A.length) A.length s := by
    have h := relResend_to_first C cap ρ he hA
      (s.rel.sent.count - A.length) (le_refl _)
    rw [Nat.sub_self, Nat.sub_add_cancel hlt.le] at h
    rw [ttSessionRelPoll, if_neg (by simp [ha]), if_neg (by simp [hreq]), if_pos hrep, h]
  obtain ⟨n, hn⟩ : ∃ n, s.rel.sent.count - A.length = n + 1 := ⟨_, (Nat.succ_pred (by omega)).symm⟩
  have hdata : w.data.length ≤ ttFrameDataMax := hwf.data_le w (by rw [he]; simp)
  have hnow : resendText s.rel.sent A.length s.rel.sent = w.data := by rw [resendText_now, hcell]
  rw [← hnow, ← emitEncode_isSome_iff hC (ρ := ρ A.length)] at hroom
  rw [hpoll, hn]
  obtain ⟨⟨hl, hc⟩, -⟩ | ⟨-, hnone, -⟩ | ⟨-, f, hne, hf, h⟩ :=
    relResend_attempt C cap ρ (r := A.length) (hcell ▸ hw) n
  · exact absurd (hfree hl) hc
  · rw [hnone] at hroom
    cases hroom
  · rw [h]
    have hframe := emitDone_frame (C := C) (s := s) (resendText s.rel.sent A.length) false
      (ρ A.length) f
    constructor
    case active => exact emitDone_active _ _ _
    case lossy => exact hframe.1
    case root => exact hframe.2
    case rel => exact ⟨_, rfl⟩
    case seq => exact emitDone_seq _ _ _
    case chain => exact fun hdue => emitDone_plain hdue _ _ _
    case entries => exact fun hl => (resendBuf_entries hwf.count_le hl he).1
    case entries_lossy => exact fun hl => (resendBuf_entries_lossy hwf.count_le hl he).1
    case count_le =>
      cases hl : s.lossy with
      | false => exact (resendBuf_entries hwf.count_le hl he).2
      | true => exact (resendBuf_entries_lossy hwf.count_le hl he).2
    case ne_nil => exact hne
    case frame =>
      intro hs
      have hd := emitEncode_decode hC hs hf (by rw [hnow]; exact hdata)
      rwa [hnow] at hd

theorem sameTag_self (w : TTSentMsg) : sameTag w w = true := by simp [sameTag]

theorem wantedBy_of_sameTag {r : TTReliable} {e : TTSentMsg} (hw : wantedBy r w = true)
    (ht : sameTag w e = true) : wantedBy r e = true := by
  rw [sameTag, Bool.and_eq_true, beq_iff_eq, beq_iff_eq] at ht
  rw [wantedBy, resendWanted] at hw ⊢
  rwa [ht.1, ht.2]

theorem filter_sameTag_unwanted {r : TTReliable} {l : List TTSentMsg} (hw : wantedBy r w = true)
    (hl : ∀ e ∈ l, wantedBy r e = false) : l.filter (fun e => !sameTag w e) = l := by
  apply List.filter_eq_self.mpr
  intro e he
  cases ht : sameTag w e with
  | false => rfl
  | true =>
    have := wantedBy_of_sameTag hw ht
    rw [hl e he] at this
    cases this

theorem freshMsg_unwanted (hg : s.rel.resendRepGen ≠ relGen C s.root) (data : Bytes) :
    wantedBy s.rel (freshMsg C s data) = false := by
  rw [wantedBy, resendWanted, freshMsg, beq_false_of_ne hg.symm, Bool.false_and]

theorem freshMsg_sameTag (hg : s.rel.resendRepGen ≠ relGen C s.root)
    (hw : wantedBy s.rel w = true) (data : Bytes) : sameTag w (freshMsg C s data) = false := by
  cases ht : sameTag w (freshMsg C s data) with
  | false => rfl
  | true =>
    have := wantedBy_of_sameTag hw ht
    rw [freshMsg_unwanted hg] at this
    cases this

theorem rebuffered_length (b : TTSentBuf) (A : List TTSentMsg) (w : TTSentMsg) :
    (rebuffered b A w).length = w.data.length := by
  unfold rebuffered
  split_ifs
  · exact List.length_replicate
  · rfl

section

variable {s' : TTSession} {f : Bytes} (h : ResentOne C s A w B s' f)

include h

theorem ResentOne.wf (hwf : SentWf s.rel.sent) (he : s.rel.sent.entries = A ++ w :: B) :
    SentWf s'.rel.sent := by
  refine ⟨h.count_le, fun e hm => ?_⟩
  have hold : ∀ e ∈ A ++ w :: B, e.data.length ≤ ttFrameDataMax := he ▸ hwf.data_le
  cases hl : s.lossy with
  | true =>
    rw [h.entries_lossy hl] at hm
    exact hold e (List.mem_of_mem_filter hm)
  | false =>
    rw [h.entries hl] at hm
    obtain hm | hm := List.mem_append.mp (List.mem_of_mem_filter hm)
    · split_ifs at hm
      · exact hold e (List.mem_of_mem_tail hm)
      · exact hold e hm
    · rw [List.mem_singleton.mp hm, freshMsg, rebuffered_length]
      exact hold w (by simp)

theorem ResentOne.wantedBy_eq : wantedBy s'.rel = wantedBy s.rel := by
  obtain ⟨b, hb⟩ := h.rel
  rw [hb]
  rfl

theorem ResentOne.entries_eq (hl : s.lossy = false) (hw : wantedBy s.rel w = true)
    (hA : ∀ e ∈ A, wantedBy s.rel e = false)
    (hx : sameTag w (freshMsg C s (rebuffered s.rel.sent A w)) = false) :
    s'.rel.sent.entries =
      (if s.rel.sent.count = ttSentMax then A.tail else A) ++ B.filter (fun e => !sameTag w e) ++
        [freshMsg C s (rebuffered s.rel.sent A w)] := by
  have hfresh : [freshMsg C s (rebuffered s.rel.sent A w)].filter (fun e => !sameTag w e) =
      [freshMsg C s (rebuffered s.rel.sent A w)] := by
    simp [hx]
  have hAf := filter_sameTag_unwanted hw hA
  rw [h.entries hl, List.filter_append, hfresh]
  congr 1
  split_ifs with hf
  · cases A with
    | nil => rfl
    | cons a A =>
      have hA' := filter_sameTag_unwanted (l := A) hw fun e he => hA e (List.mem_cons_of_mem _ he)
      change (A ++ w :: B).filter _ = _
      rw [List.filter_append, hA', List.filter_cons_of_neg (by simp [sameTag_self])]
      rfl
  · rw [List.filter_append, hAf, List.filter_cons_of_neg (by simp [sameTag_self])]

theorem ResentOne.wantedMsgs_eq (hl : s.lossy = false) (hw : wantedBy s.rel w = true)
    (hA : ∀ e ∈ A, wantedBy s.rel e = false)
    (hg : s.rel.resendRepGen ≠ relGen C s.root) :
    wantedMsgs s' = (B.filter (wantedBy s.rel)).filter (fun e => !sameTag w e) := by
  have hA' : (if s.rel.sent.count = ttSentMax then A.tail else A).filter (wantedBy s.rel) = [] := by
    apply List.filter_eq_nil_iff.mpr
    intro e he
    split_ifs at he
    · simp [hA e (List.mem_of_mem_tail he)]
    · simp [hA e he]
  rw [wantedMsgs, h.wantedBy_eq, h.entries_eq hl hw hA (freshMsg_sameTag hg hw _),
    List.filter_append, List.filter_append, hA', List.nil_append, List.filter_singleton,
    freshMsg_unwanted hg, cond_false, List.append_nil, List.filter_filter, List.filter_filter]
  congr 1
  funext e
  exact Bool.and_comm _ _

end

end TkTox
