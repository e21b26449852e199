import TkTox.Resend

/-!
Polling until the answer to a RESEND is through: every wanted message goes out once, and what of
them is still buffered.
-/

namespace TkTox

variable {C : Crypto} {s : TTSession} {cap : ℕ} {A B : List TTSentMsg} {w : TTSentMsg}

def relDrain (C : Crypto) (cap : ℕ) : (ℕ → ℕ → Draws) → ℕ → TTSession → TTSession × List Bytes
  | _, 0, s => (s, [])
  | ρ, n + 1, s =>
    let p := ttSessionRelPoll C s cap (ρ 0)
    let r := relDrain C cap (fun i => ρ (i + 1)) n p.1
    (r.1, p.2 :: r.2)

def Resent (C : Crypto) : Key → ℕ → List TTSentMsg → List Bytes → Prop
  | _, _, [], [] => True
  | chain, seq, w :: ws, f :: fs =>
    (∃ d, ttFrameDecode C f (chainMaterial C chain).1 ttFrameDataMax = some (d, w.data) ∧
      d.type = some .data ∧ d.seq = seq) ∧ Resent C (nextChain C chain) (seqNext seq) ws fs
  | _, _, _, _ => False

def rebufferedMsgs (gen : ℕ) : ℕ → ℕ → List TTSentMsg → List TTSentMsg
  | _, _, [] => []
  | seq, wiped, w :: ws =>
    ⟨gen, seq, if 0 < wiped then List.replicate w.data.length 0 else w.data⟩ ::
      rebufferedMsgs gen (seqNext seq) (wiped - 1) ws

-- Wanted messages at the head of a full ring are wiped when they are buffered again.
def wipedCount (full : Bool) (r : TTReliable) (l : List TTSentMsg) : ℕ :=
  if full then (l.takeWhile (wantedBy r)).length else 0

structure ResendPending (C : Crypto) (s : TTSession) : Prop where
  active : s.active = true
  lossy : s.lossy = false
  rep : s.rel.resendRepPending = true
  gen : s.rel.resendRepGen ≠ relGen C s.root
  seq : s.send.seq < 2 ^ 32
  wf : SentWf s.rel.sent

structure ResendReady (C : Crypto) (s : TTSession) : Prop extends ResendPending C s where
  req : s.rel.resendReqPending = false

section

variable {ρ : ℕ → ℕ → Draws} {n : ℕ}

theorem ResendReady.poll (hr : ResendReady C s) (hC : C.AeadCorrect) (hcap : ttFrameMax ≤ cap)
    (hdue : dueHdrLen C s false = 0) (he : s.rel.sent.entries = A ++ w :: B)
    (hA : ∀ e ∈ A, wantedBy s.rel e = false) (hw : wantedBy s.rel w = true) (ρ : ℕ → Draws) :
    ResentOne C s A w B (ttSessionRelPoll C s cap ρ).1 (ttSessionRelPoll C s cap ρ).2 ∧
      ResendReady C (ttSessionRelPoll C s cap ρ).1 := by
  have h := ttSessionRelPoll_resend (ρ := ρ) hC hr.active hr.req hr.rep
    (fun hl => by rw [hr.lossy] at hl; cases hl) hr.wf he
    (frameRoom_plain hdue hcap (hr.wf.data_le w (by rw [he]; simp))) hA hw
  obtain ⟨b, hb⟩ := h.rel
  refine ⟨h, ⟨h.active.trans hr.active, h.lossy.trans hr.lossy, ?_, ?_, ?_, h.wf hr.wf he⟩, ?_⟩
  · rw [hb]
    exact hr.rep
  · rw [hb, h.root]
    exact hr.gen
  · rw [h.seq]
    exact seqNext_lt _
  · rw [hb]
    exact hr.req

theorem filter_sameTag_nodup {r : TTReliable} {W : List TTSentMsg} (hw : wantedBy r w = true)
    (hB : B.filter (wantedBy r) = W) (hn : w.seq ∉ W.map (·.seq)) :
    B.filter (fun e => !sameTag w e) = B := by
  apply List.filter_eq_self.mpr
  intro e he
  cases ht : sameTag w e with
  | false => rfl
  | true =>
    have hm : e ∈ W := hB ▸ List.mem_filter.mpr ⟨he, wantedBy_of_sameTag hw ht⟩
    rw [sameTag, Bool.and_eq_true, beq_iff_eq, beq_iff_eq] at ht
    exact absurd (List.mem_map.mpr ⟨e, hm, ht.2⟩) hn

-- Along the drain the ring is what is left of the old entries, `L`, then the fresh ones, `F`.
theorem relDrain_resend (hC : C.AeadCorrect) (hcap : ttFrameMax ≤ cap) {L F W : List TTSentMsg}
    (hr : ResendReady C s) (he : s.rel.sent.entries = L ++ F)
    (hF : ∀ e ∈ F, wantedBy s.rel e = false) (hW : L.filter (wantedBy s.rel) = W)
    (hnodup : (W.map (·.seq)).Nodup)
    (hdue : ∀ j < W.length, dueHdrLen C (relDrain C cap ρ j s).1 false = 0) :
    Resent C s.send.chain s.send.seq W (relDrain C cap ρ W.length s).2 ∧
      ResendReady C (relDrain C cap ρ W.length s).1 ∧
      (∃ b, (relDrain C cap ρ W.length s).1.rel = { s.rel with sent := b }) ∧
      ∃ e ≤ if s.rel.sent.count = ttSentMax then 1 else 0,
        (relDrain C cap ρ W.length s).1.rel.sent.entries =
          (L.filter (fun e => !wantedBy s.rel e)).drop e ++ F ++
            rebufferedMsgs (relGen C s.root) s.send.seq
              (wipedCount (s.rel.sent.count = ttSentMax) s.rel L) W := by
  induction W generalizing s L F ρ with
  | nil =>
    refine ⟨trivial, hr, ⟨s.rel.sent, rfl⟩, 0, Nat.zero_le _, ?_⟩
    have hL : L.filter (fun e => !wantedBy s.rel e) = L := by
      apply List.filter_eq_self.mpr
      intro e hm
      simpa using List.filter_eq_nil_iff.mp hW e hm
    rw [hL, rebufferedMsgs, List.append_nil]
    exact he
  | cons w ws ih =>
    obtain ⟨A, B, rfl, hA, hw, hB⟩ := List.filter_eq_cons_iff.mp hW
    have hA' : ∀ e ∈ A, wantedBy s.rel e = false := fun e h => by simpa using hA e h
    have he' : s.rel.sent.entries = A ++ w :: (B ++ F) := by rw [he, List.append_assoc]; rfl
    obtain ⟨h, hr'⟩ := hr.poll hC hcap (hdue 0 (by simp)) he' hA' hw (ρ 0)
    set s1 := (ttSessionRelPoll C s cap (ρ 0)).1 with hs1
    have hrel : wantedBy s1.rel = wantedBy s.rel := h.wantedBy_eq
    obtain ⟨hnot, hnodup'⟩ := List.nodup_cons.mp hnodup
    have hBF : (B ++ F).filter (fun e => !sameTag w e) = B ++ F := by
      rw [List.filter_append, filter_sameTag_nodup hw hB hnot,
        filter_sameTag_unwanted hw hF]
    have hent := h.entries_eq hr.lossy hw hA' (freshMsg_sameTag hr.gen hw _)
    rw [hBF] at hent
    obtain ⟨b, hb⟩ := h.rel
    have hA1 : ∀ e ∈ (if s.rel.sent.count = ttSentMax then A.tail else A),
        wantedBy s.rel e = false := by
      intro e hm
      split_ifs at hm
      · exact hA' e (List.mem_of_mem_tail hm)
      · exact hA' e hm
    obtain ⟨hsent, hready, ⟨b', hb'⟩, e, hle, hent'⟩ := ih (s := s1)
      (L := (if s.rel.sent.count = ttSentMax then A.tail else A) ++ B)
      (F := F ++ [freshMsg C s (rebuffered s.rel.sent A w)]) (ρ := fun i => ρ (i + 1)) hr'
      (by rw [hent]; simp only [List.append_assoc])
      (by
        intro e hm
        rw [hrel]
        obtain hm | hm := List.mem_append.mp hm
        · exact hF e hm
        · rw [List.mem_singleton.mp hm]
          exact freshMsg_unwanted hr.gen _)
      (by
        rw [hrel, List.filter_append, hB, List.append_left_eq_self]
        apply List.filter_eq_nil_iff.mpr
        intro e hm
        simp [hA1 e hm])
      hnodup' (fun j hj => hdue (j + 1) (by simpa using hj))
    refine ⟨⟨h.frame hr.seq, ?_⟩, hready, ⟨b', ?_⟩, ?_⟩
    · rw [← h.chain (hdue 0 (by simp)), ← h.seq]
      exact hsent
    · change (relDrain C cap _ ws.length s1).1.rel = _
      rw [hb', hb]
    change ∃ e ≤ _, (relDrain C cap _ ws.length s1).1.rel.sent.entries = _
    have hc1 : s1.rel.sent.count = (if s.rel.sent.count = ttSentMax then A.tail else A).length +
        (B ++ F).length + 1 := by
      have hlen : s1.rel.sent.entries.length = s1.rel.sent.count := Ring.entries_length
      rw [← hlen, hent, List.length_append, List.length_append, List.length_singleton]
    have hc : s.rel.sent.count = A.length + 1 + (B ++ F).length := by
      have hlen : s.rel.sent.entries.length = s.rel.sent.count := Ring.entries_length
      rw [← hlen, he', List.length_append, List.length_cons]
      omega
    have hle' := hr.wf.count_le
    have hwiped : wipedCount (s1.rel.sent.count = ttSentMax) s1.rel =
        wipedCount (s1.rel.sent.count = ttSentMax) s.rel := by
      unfold wipedCount
      rw [hrel]
    rw [hent', h.root, h.seq, hrel, hwiped]
    have hwn : ∀ l, (w :: l).filter (fun e => !wantedBy s.rel e) =
        l.filter (fun e => !wantedBy s.rel e) :=
      fun l => List.filter_cons_of_neg (by simp [hw])
    by_cases hf : s.rel.sent.count = ttSentMax
    · rw [if_pos hf] at hc1 ⊢
      cases A with
      | nil =>
        have hf1 : s1.rel.sent.count = ttSentMax := by
          simp only [List.tail_nil, List.length_nil] at hc1 hc
          omega
        rw [if_pos hf1] at hle
        refine ⟨e, hle, ?_⟩
        simp only [List.tail_nil, List.nil_append, hwn, List.append_assoc, List.singleton_append,
          rebufferedMsgs, freshMsg, rebuffered, hf, hf1, wipedCount, List.takeWhile_cons, hw]
        simp
      | cons a A =>
        have hf1 : ¬ s1.rel.sent.count = ttSentMax := by
          simp only [List.tail_cons, List.length_cons] at hc1 hc
          omega
        rw [if_neg hf1] at hle
        obtain rfl : e = 0 := by omega
        refine ⟨1, le_rfl, ?_⟩
        have ha : wantedBy s.rel a = false := hA' a (by simp)
        simp [hwn, rebufferedMsgs, freshMsg, rebuffered, hf, hf1, wipedCount, ha]
    · have hf1 : ¬ s1.rel.sent.count = ttSentMax := by
        rw [if_neg hf] at hc1
        omega
      rw [if_neg hf1] at hle
      obtain rfl : e = 0 := by omega
      refine ⟨0, Nat.zero_le _, ?_⟩
      simp [hwn, rebufferedMsgs, freshMsg, rebuffered, hf, hf1, wipedCount]

theorem ResendReady.poll_none (hr : ResendReady C s) (hW : wantedMsgs s = []) (cap : ℕ)
    (ρ : ℕ → Draws) : ttSessionRelPoll C s cap ρ =
      ({ s with rel := { s.rel with resendRepPending := false } }, []) := by
  rw [ttSessionRelPoll, if_neg (by simp [hr.active]), if_neg (by simp [hr.req]), if_pos hr.rep]
  exact relResend_none hW _ (by omega)

theorem relDrain_nodup (hC : C.AeadCorrect) (hcap : ttFrameMax ≤ cap) {V : List TTSentMsg}
    {chain : Key} {seq : ℕ} (hr : ResendReady C s) (hle : (wantedMsgs s).length ≤ n)
    (hdue : ∀ j < n, dueHdrLen C (relDrain C cap ρ j s).1 false = 0)
    (hV : Resent C chain seq V (relDrain C cap ρ n s).2) :
    ((wantedMsgs s).map (·.seq)).Nodup ∧ (wantedMsgs s).length = n := by
  induction n generalizing s V chain seq ρ with
  | zero =>
    rw [List.eq_nil_of_length_eq_zero (Nat.le_zero.mp hle)]
    exact ⟨List.nodup_nil, rfl⟩
  | succ n ih =>
    cases V with
    | nil => exact hV.elim
    | cons v V =>
    obtain ⟨⟨d, hd, -⟩, htail⟩ := hV
    cases hW : wantedMsgs s with
    | nil =>
      rw [hr.poll_none hW] at hd
      have := ttFrameDecode_isSome_peek hd
      cases this
    | cons w ws =>
      obtain ⟨A, B, he, hA, hw, hB⟩ := List.filter_eq_cons_iff.mp hW
      have hA' : ∀ e ∈ A, wantedBy s.rel e = false := fun e h => by simpa using hA e h
      obtain ⟨h, hr'⟩ := hr.poll hC hcap (hdue 0 (by omega)) he hA' hw (ρ 0)
      have hW' := h.wantedMsgs_eq hr.lossy hw hA' hr.gen
      rw [hB] at hW'
      have hlen : (ws.filter fun e => !sameTag w e).length ≤ ws.length := List.length_filter_le _ _
      rw [hW, List.length_cons] at hle
      obtain ⟨hnd, hn⟩ := ih hr' (by rw [hW']; omega) (fun j hj => hdue (j + 1) (by omega)) htail
      rw [hW'] at hnd hn
      have hall := List.length_filter_eq_length_iff.mp (le_antisymm hlen (by omega))
      have hself : ws.filter (fun e => !sameTag w e) = ws := List.filter_eq_self.mpr hall
      rw [hself] at hnd hn
      refine ⟨?_, by rw [List.length_cons, hn]⟩
      rw [List.map_cons, List.nodup_cons]
      refine ⟨fun hm => ?_, hnd⟩
      obtain ⟨e, hm, hseq⟩ := List.mem_map.mp hm
      have hwe : wantedBy s.rel e = true := by
        rw [← hB] at hm
        exact (List.mem_filter.mp hm).2
      have hgen : e.gen = w.gen := by
        rw [wantedBy, resendWanted, Bool.and_eq_true, beq_iff_eq] at hw hwe
        rw [hw.1, hwe.1]
      have := hall e hm
      rw [sameTag, hgen, hseq] at this
      simp at this

theorem rebufferedMsgs_length (gen : ℕ) (W : List TTSentMsg) (seq wiped : ℕ) :
    (rebufferedMsgs gen seq wiped W).length = W.length := by
  induction W generalizing seq wiped with
  | nil => rfl
  | cons w W ih => rw [rebufferedMsgs, List.length_cons, List.length_cons, ih]

theorem gen_of_mem_rebufferedMsgs {gen : ℕ} {W : List TTSentMsg} {seq wiped : ℕ} {e : TTSentMsg}
    (h : e ∈ rebufferedMsgs gen seq wiped W) : e.gen = gen := by
  induction W generalizing seq wiped with
  | nil => cases h
  | cons w W ih =>
    obtain rfl | h := List.mem_cons.mp h
    · rfl
    · exact ih h

theorem replicate_zero_eq_iff {l : Bytes} : List.replicate l.length 0 = l ↔ ∀ b ∈ l, b = 0 := by
  rw [eq_comm, List.eq_replicate_iff]
  exact and_iff_right rfl

theorem rebufferedMsgs_eq_iff (gen : ℕ) (W : List TTSentMsg) (seq wiped : ℕ) :
    rebufferedMsgs gen seq wiped W = rebufferedMsgs gen seq 0 W ↔
      ∀ e ∈ W.take wiped, ∀ b ∈ e.data, b = 0 := by
  induction W generalizing seq wiped with
  | nil => simp [rebufferedMsgs]
  | cons w W ih =>
    cases wiped with
    | zero => simp
    | succ k =>
      rw [rebufferedMsgs, rebufferedMsgs, List.cons.injEq, Nat.add_sub_cancel, ih, List.take_succ_cons,
        List.forall_mem_cons, if_pos (Nat.succ_pos k), if_neg (lt_irrefl 0), TTSentMsg.mk.injEq,
        replicate_zero_eq_iff]
      simp

theorem filter_take_takeWhile (p : TTSentMsg → Bool) (l : List TTSentMsg) :
    (l.filter p).take (l.takeWhile p).length = l.takeWhile p := by
  induction l with
  | nil => rfl
  | cons a l ih =>
    cases h : p a with
    | true => simp [h, ih]
    | false => simp [h]

def reqPolls (s : TTSession) : ℕ := if s.rel.resendReqPending then 1 else 0

def resendPolls (s : TTSession) : ℕ := (wantedMsgs s).length + reqPolls s

structure ResendKept (C : Crypto) (s final : TTSession) (frames : List Bytes) : Prop where
  sent : Resent C s.send.chain s.send.seq (wantedMsgs s) frames
  kept : ∃ e ≤ if s.rel.sent.count = ttSentMax then 1 else 0, final.rel.sent.entries =
    (s.rel.sent.entries.filter (fun e => !wantedBy s.rel e)).drop e ++
      rebufferedMsgs (relGen C s.root) s.send.seq 0 (wantedMsgs s)
  done : ∀ cap ρ, (ttSessionRelPoll C final cap ρ).2 = [] ∧
    (ttSessionRelPoll C final cap ρ).1.rel.resendRepPending = false

-- The wanted seqs are distinct, and a full ring does not start with a wanted message that has
-- a non-zero byte.
def ResendClean (s : TTSession) : Prop :=
  ((wantedMsgs s).map (·.seq)).Nodup ∧ (s.rel.sent.count = ttSentMax →
    ∀ e ∈ s.rel.sent.entries.takeWhile (wantedBy s.rel), ∀ b ∈ e.data, b = 0)

theorem wiped_clean_iff :
    (∀ e ∈ (wantedMsgs s).take (wipedCount (s.rel.sent.count = ttSentMax) s.rel
        s.rel.sent.entries), ∀ b ∈ e.data, b = 0) ↔
      (s.rel.sent.count = ttSentMax →
        ∀ e ∈ s.rel.sent.entries.takeWhile (wantedBy s.rel), ∀ b ∈ e.data, b = 0) := by
  unfold wipedCount
  by_cases hf : s.rel.sent.count = ttSentMax
  · rw [decide_eq_true hf, if_pos rfl, wantedMsgs, filter_take_takeWhile]
    exact ⟨fun h _ => h, fun h => h hf⟩
  · rw [decide_eq_false hf, if_neg (by simp)]
    simp [hf]

theorem ResendReady.kept_iff (hr : ResendReady C s) (hC : C.AeadCorrect) (hcap : ttFrameMax ≤ cap)
    (hdue : ∀ j < (wantedMsgs s).length, dueHdrLen C (relDrain C cap ρ j s).1 false = 0) :
    ResendKept C s (relDrain C cap ρ (wantedMsgs s).length s).1
      (relDrain C cap ρ (wantedMsgs s).length s).2 ↔ ResendClean s := by
  have hrun := fun hn => relDrain_resend (L := s.rel.sent.entries) (F := []) (W := wantedMsgs s) hC hcap hr
    (List.append_nil _).symm (by simp) rfl hn hdue
  constructor
  · intro h
    obtain ⟨hnodup, -⟩ := relDrain_nodup hC hcap hr le_rfl hdue h.sent
    refine ⟨hnodup, wiped_clean_iff.mp ?_⟩
    obtain ⟨-, -, -, e, -, he⟩ := hrun hnodup
    obtain ⟨e', -, he'⟩ := h.kept
    rw [he, List.append_nil] at he'
    have := (List.append_inj' he' (by rw [rebufferedMsgs_length, rebufferedMsgs_length])).2
    exact (rebufferedMsgs_eq_iff _ _ _ _).mp this
  · rintro ⟨hnodup, hclean⟩
    obtain ⟨hsent, hready, ⟨b, hb⟩, e, hle, he⟩ := hrun hnodup
    have heq := (rebufferedMsgs_eq_iff (relGen C s.root) (wantedMsgs s) s.send.seq _).mpr
      (wiped_clean_iff.mpr hclean)
    rw [heq, List.append_nil] at he
    refine ⟨hsent, ⟨e, hle, he⟩, fun cap' ρ' => ?_⟩
    have hnone : wantedMsgs (relDrain C cap ρ (wantedMsgs s).length s).1 = [] := by
      apply List.filter_eq_nil_iff.mpr
      intro x hx
      have hw : wantedBy (relDrain C cap ρ (wantedMsgs s).length s).1.rel = wantedBy s.rel := by
        rw [hb]
        rfl
      rw [hw]
      rw [he] at hx
      obtain hx | hx := List.mem_append.mp hx
      · have := List.mem_of_mem_drop hx
        simpa using (List.mem_filter.mp this).2
      · rw [wantedBy, resendWanted, gen_of_mem_rebufferedMsgs hx, beq_false_of_ne hr.gen.symm]
        simp
    rw [hready.poll_none hnone]
    exact ⟨rfl, rfl⟩

theorem resendKept_answered {t : TTSession}
    (ht : t = { s with rel := { s.rel with resendReqPending := false } }) :
    (∀ {final frames}, ResendKept C t final frames ↔ ResendKept C s final frames) ∧
      (ResendClean t ↔ ResendClean s) ∧ wantedMsgs t = wantedMsgs s := by
  subst ht
  exact ⟨⟨fun h => ⟨h.sent, h.kept, h.done⟩, fun h => ⟨h.sent, h.kept, h.done⟩⟩, Iff.rfl, rfl⟩

/-- A drained RESEND reply keeps every wanted message exactly when the wanted seqs are distinct
and a full ring does not start with a wanted message. -/
theorem resendKept_iff (hC : C.AeadCorrect) (hp : ResendPending C s) (hcap : ttFrameMax ≤ cap)
    (hdue : ∀ j < resendPolls s, dueHdrLen C (relDrain C cap ρ j s).1 false = 0) :
    ResendKept C s (relDrain C cap ρ (resendPolls s) s).1
      ((relDrain C cap ρ (resendPolls s) s).2.drop (reqPolls s)) ↔ ResendClean s := by
  unfold resendPolls reqPolls at *
  cases hreq : s.rel.resendReqPending with
  | false =>
    rw [hreq] at hdue
    exact ResendReady.kept_iff ⟨hp, hreq⟩ hC hcap hdue
  | true =>
    rw [hreq] at hdue
    have hpoll : (ttSessionRelPoll C s cap (ρ 0)).1 =
        { s with rel := { s.rel with resendReqPending := false } } := by
      rw [ttSessionRelPoll, if_neg (by simp [hp.active]), if_pos hreq]
    obtain ⟨hkept, hclean, hW⟩ := resendKept_answered (C := C) hpoll
    have hr : ResendReady C (ttSessionRelPoll C s cap (ρ 0)).1 := by
      rw [hpoll]
      exact ⟨⟨hp.active, hp.lossy, hp.rep, hp.gen, hp.seq, hp.wf⟩, rfl⟩
    have h := hr.kept_iff (ρ := fun i => ρ (i + 1)) hC hcap
    rw [hclean, hW, hkept] at h
    exact h fun j hj => hdue (j + 1) (Nat.succ_lt_succ hj)

end

namespace Instance

def aliceResending (sent : TTSentBuf) : TTSession :=
  { alice with rel := { alice.rel with
    sent := sent, resendRepPending := true, resendRepGen := 7, resendRepFrom := 3 } }

def fullRing : TTSentBuf where
  m i := if i.val = 5 then ⟨7, 3, [1, 2]⟩ else ⟨8, i, [9]⟩
  head := 5
  count := 32

theorem fullRing_wiped :
    ResendPending crypto (aliceResending fullRing) ∧
      resendPolls (aliceResending fullRing) = 1 ∧
      dueHdrLen crypto (aliceResending fullRing) false = 0 ∧
      ((relDrain crypto ttFrameMax (fun _ _ => draws 9) 1 (aliceResending fullRing)).1.rel.sent.entries.map
        (·.data)).getLast? = some [0, 0] ∧
      ¬ ResendKept crypto (aliceResending fullRing)
        (relDrain crypto ttFrameMax (fun _ _ => draws 9) 1 (aliceResending fullRing)).1
        (relDrain crypto ttFrameMax (fun _ _ => draws 9) 1 (aliceResending fullRing)).2 := by
  have hf : (aliceResending fullRing).active = true ∧ (aliceResending fullRing).lossy = false ∧
      (aliceResending fullRing).rel.resendRepGen ≠ relGen crypto (aliceResending fullRing).root ∧
      (aliceResending fullRing).send.seq < 2 ^ 32 ∧
      (aliceResending fullRing).rel.resendReqPending = false ∧
      dueHdrLen crypto (aliceResending fullRing) false = 0 := by decide +kernel
  obtain ⟨ha, hl, hg, hq, hreq, hdue⟩ := hf
  have hdata : ∀ e ∈ fullRing.entries, e.data.length ≤ ttFrameDataMax := by decide
  have hp : ResendPending crypto (aliceResending fullRing) :=
    ⟨ha, hl, rfl, hg, hq, ⟨by decide, hdata⟩⟩
  have hW : wantedMsgs (aliceResending fullRing) = [⟨7, 3, [1, 2]⟩] := by
    change fullRing.entries.filter (resendWanted 7 3) = _
    decide
  have hbytes : ((relDrain crypto ttFrameMax (fun _ _ => draws 9) 1
      (aliceResending fullRing)).1.rel.sent.entries.map (·.data)).getLast? = some [0, 0] := by
    decide +kernel
  refine ⟨hp, by rw [resendPolls, reqPolls, hW, hreq]; rfl, hdue, hbytes, fun h => ?_⟩
  have hr : ResendReady crypto (aliceResending fullRing) := ⟨hp, hreq⟩
  have hk := hr.kept_iff (ρ := fun _ _ => draws 9) aeadCorrect (le_refl ttFrameMax)
  rw [hW] at hk
  have hclean := (hk fun j hj => by
    obtain rfl : j = 0 := by simpa using hj
    exact hdue).mp h
  have := hclean.2 rfl ⟨7, 3, [1, 2]⟩ (by
    change _ ∈ fullRing.entries.takeWhile (resendWanted 7 3)
    decide) 1 (by simp)
  exact absurd this (by decide)

def roomyRing : TTSentBuf where
  m i := if i.val = 5 then ⟨7, 3, [1, 2]⟩ else if i.val = 7 then ⟨7, 4, [5]⟩ else ⟨8, i, [9]⟩
  head := 5
  count := 3

theorem resendKept_iff_roomyRing :
    ResendKept crypto (aliceResending roomyRing)
      (relDrain crypto ttFrameMax (fun _ _ => draws 9) 2 (aliceResending roomyRing)).1
      (relDrain crypto ttFrameMax (fun _ _ => draws 9) 2 (aliceResending roomyRing)).2 := by
  have hf : (aliceResending roomyRing).active = true ∧ (aliceResending roomyRing).lossy = false ∧
      (aliceResending roomyRing).rel.resendRepGen ≠ relGen crypto (aliceResending roomyRing).root ∧
      (aliceResending roomyRing).send.seq < 2 ^ 32 ∧
      (aliceResending roomyRing).rel.resendReqPending = false ∧
      dueHdrLen crypto (aliceResending roomyRing) false = 0 ∧
      dueHdrLen crypto (relDrain crypto ttFrameMax (fun _ _ => draws 9) 1
        (aliceResending roomyRing)).1 false = 0 := by decide +kernel
  obtain ⟨ha, hl, hg, hq, hreq, hdue0, hdue1⟩ := hf
  have hdata : ∀ e ∈ roomyRing.entries, e.data.length ≤ ttFrameDataMax := by decide
  have hW : wantedMsgs (aliceResending roomyRing) = [⟨7, 3, [1, 2]⟩, ⟨7, 4, [5]⟩] := by
    change roomyRing.entries.filter (resendWanted 7 3) = _
    decide
  have hn : resendPolls (aliceResending roomyRing) = 2 := by
    rw [resendPolls, reqPolls, hW, hreq]
    rfl
  have hk := resendKept_iff (ρ := fun _ _ => draws 9) aeadCorrect
    (s := aliceResending roomyRing) ⟨ha, hl, rfl, hg, hq, ⟨by decide, hdata⟩⟩ (le_refl ttFrameMax)
  rw [hn, reqPolls, hreq] at hk
  refine (hk fun j hj => ?_).mpr ⟨?_, ?_⟩
  · obtain rfl | rfl : j = 0 ∨ j = 1 := by omega
    · exact hdue0
    · exact hdue1
  · rw [hW]
    decide
  · intro hc
    exact absurd hc (by decide)

end Instance

end TkTox
