import TkTox.FeedCases
import TkTox.SessionRecord
import TkTox.SessionRun

/-!
No call of `session.c` leaves the range the record of a session can hold.
-/

namespace TkTox

variable {C : Crypto}

structure TTSession.Bounded (s : TTSession) : Prop where
  range : s.InRange
  stash : ∀ text ∈ s.pending, text.length ≤ ttFrameDataMax

namespace TTRatchet.InRange

variable {r : TTRatchet}

theorem of_empty (hs : r.seq < 2 ^ 32) (hf : r.sinceFold = 0) (hk : r.skipped = []) : r.InRange := by
  refine ⟨hs, ?_, ?_, ?_⟩
  · rw [hf]
    decide
  · simp [hk]
  · simp [hk]

theorem zero : TTRatchet.zero.InRange := of_empty (by decide) rfl rfl

theorem reset (C : Crypto) (root : Key) (b : Bool) : (ratchetReset C root b).InRange :=
  of_empty (show 1 < 2 ^ 32 by decide) rfl rfl

theorem fold (h : r.InRange) (dh kem : Key) : (ratchetFold C r dh kem).InRange :=
  of_empty h.seq rfl rfl

theorem advance (h : r.InRange) : (sendAdvance C r).InRange :=
  ⟨seqNext_lt _, h.sinceFold, h.skipped, h.length⟩

theorem counted (h : r.InRange) : ({ r with sinceFold := (r.sinceFold + 1) % 2 ^ 16 }).InRange :=
  ⟨h.seq, Nat.mod_lt _ (by decide), h.skipped, h.length⟩

theorem skippedAdd (h : r.InRange) {seq : ℕ} (hs : seq < 2 ^ 32) (key : Key) :
    (TkTox.skippedAdd r seq key).InRange where
  seq := h.seq
  sinceFold := h.sinceFold
  skipped e he := by
    obtain he | he := List.mem_append.mp he
    · split_ifs at he
      · exact h.skipped e (List.mem_of_mem_drop he)
      · exact h.skipped e he
    · rw [List.mem_singleton.mp he]
      exact hs
  length := by
    have hl := h.length
    simp only [TkTox.skippedAdd, List.length_append, List.length_singleton, ttSessionSkippedMax] at hl ⊢
    split_ifs
    · rw [List.length_drop]
      omega
    · omega

theorem skippedTake (h : r.InRange) {seq : ℕ} {key : Key} {r' : TTRatchet}
    (ht : TkTox.skippedTake r seq = some (key, r')) : r'.InRange := by
  obtain ⟨e, -, he⟩ := Option.map_eq_some_iff.mp ht
  cases he
  exact ⟨h.seq, h.sinceFold, fun e he => h.skipped e (List.mem_of_mem_eraseP he),
    (List.length_eraseP_le ..).trans h.length⟩

theorem skipOne (h : r.InRange) : (recvSkipOne C r).InRange := by
  have hk := skippedAdd (r := { r with chain := nextChain C r.chain })
    ⟨h.seq, h.sinceFold, h.skipped, h.length⟩ h.seq (chainMaterial C r.chain).1
  exact ⟨seqNext_lt _, hk.sinceFold, hk.skipped, hk.length⟩

theorem skips (h : r.InRange) (k : ℕ) : ((recvSkipOne C)^[k] r).InRange := by
  induction k with
  | zero => exact h
  | succ k ih =>
    rw [Function.iterate_succ_apply']
    exact ih.skipOne

theorem commit (h : r.InRange) (seq : ℕ) : (recvCommit C r seq).InRange := (h.skips _).advance

end TTRatchet.InRange

namespace TTReliable.InRange

variable {r : TTReliable}

theorem add (h : r.InRange) {gen seq : ℕ} {text : TTSentBuf → Bytes} (hg : gen < 2 ^ 32)
    (hs : seq < 2 ^ 32) (ht : ∀ b, (text b).length ≤ ttFrameDataMax) :
    ({ r with sent := relSentAdd r.sent gen seq text }).InRange := by
  obtain ⟨he, hc⟩ := relSentAdd_entries h.count gen seq text
  have hmem : ∀ e ∈ (relSentAdd r.sent gen seq text).entries,
      e ∈ r.sent.entries ∨ e = ⟨gen, seq, text (relSentRoom r.sent)⟩ := by
    rw [he]
    intro e hm
    obtain hm | hm := List.mem_append.mp hm
    · split_ifs at hm
      · exact Or.inl (List.mem_of_mem_tail hm)
      · exact Or.inl hm
    · exact Or.inr (List.mem_singleton.mp hm)
  refine ⟨hc, ?_, ?_, h.recvAcked, h.reqGen, h.reqFrom, h.repGen, h.repFrom, h.repPos⟩
  · intro e hm
    obtain hm | rfl := hmem e hm
    · exact h.tags e hm
    · exact ⟨hg, hs⟩
  · intro e hm
    obtain hm | rfl := hmem e hm
    · exact h.lengths e hm
    · exact ht _

theorem compact (h : r.InRange) (evict : TTSentMsg → Bool) :
    ({ r with sent := relCompact evict r.sent }).InRange := by
  obtain ⟨he, hc⟩ := relCompact_entries h.count evict
  have hmem : ∀ e ∈ (relCompact evict r.sent).entries, e ∈ r.sent.entries := by
    rw [he]
    intro e hm
    exact (List.mem_filter.mp hm).1
  exact ⟨hc.trans h.count, fun e hm => h.tags e (hmem e hm), fun e hm => h.lengths e (hmem e hm),
    h.recvAcked, h.reqGen, h.reqFrom, h.repGen, h.repFrom, h.repPos⟩

theorem control (h : r.InRange) (type : TTFrameType) (payload : Bytes) :
    (controlRel r type payload).InRange := by
  unfold controlRel
  split_ifs
  · exact h.compact _
  · exact ⟨h.count, h.tags, h.lengths, h.recvAcked, h.reqGen, h.reqFrom, readU32_lt _, readU32_lt _,
      show 0 < 2 ^ 16 by decide⟩

end TTReliable.InRange

theorem relGen_lt (C : Crypto) (root : Key) : relGen C root < 2 ^ 32 := readU32_lt _

namespace TTSession.Bounded

variable {s : TTSession} {b : Bool} {ρ : Draws}

theorem of_eq {t : TTSession} (h : s.Bounded) (hs : t.send = s.send) (hr : t.recv = s.recv)
    (hl : t.rel = s.rel) (hp : t.pending = s.pending) : t.Bounded :=
  ⟨⟨hs ▸ h.range.send, hr ▸ h.range.recv, hl ▸ h.range.rel⟩, hp ▸ h.stash⟩

theorem with_rel (h : s.Bounded) {rel : TTReliable} (hr : rel.InRange) :
    ({ s with rel := rel }).Bounded := ⟨⟨h.range.send, h.range.recv, hr⟩, h.stash⟩

theorem with_recv (h : s.Bounded) {recv : TTRatchet} (hr : recv.InRange) :
    ({ s with recv := recv }).Bounded := ⟨⟨h.range.send, hr, h.range.rel⟩, h.stash⟩

theorem with_send (h : s.Bounded) {send : TTRatchet} (hr : send.InRange) (rekey : TTRekey) :
    ({ s with send := send, rekey := rekey }).Bounded := ⟨⟨hr, h.range.recv, h.range.rel⟩, h.stash⟩

theorem finish (h : s.Bounded) (fold : Option (Key × Key)) : (finishFold C s fold).Bounded := by
  cases fold with
  | none => exact h.with_send h.range.send.counted s.rekey
  | some f => exact h.with_send (h.range.send.fold f.1 f.2) _

theorem park (h : s.Bounded) (hdr frame : Bytes) : (parkCarrier s hdr frame).Bounded := by
  unfold parkCarrier
  split_ifs
  · exact h.of_eq rfl rfl rfl rfl
  · exact h

theorem drawn (h : s.Bounded) : (emitDrawn C s b ρ).Bounded := h.with_send h.range.send.advance _

theorem emit (h : s.Bounded) (C : Crypto) (cap : ℕ) (b : Bool) (ρ : Draws) {text : TTSentBuf → Bytes}
    (ht : ∀ b, (text b).length ≤ ttFrameDataMax) : (emitFrame C s text cap b ρ).1.Bounded := by
  obtain ⟨-, -, he⟩ | ⟨-, -, he⟩ | ⟨-, f, -, he⟩ := emitFrame_cases C s text cap b ρ
  · rw [he]
    exact h
  · rw [he]
    exact h.drawn
  · rw [he]
    apply park
    apply finish
    split_ifs
    · exact h.drawn
    · exact h.drawn.with_rel (h.range.rel.add (relGen_lt C s.root) h.range.send.seq ht)

theorem resend_text (h : s.Bounded) {r : ℕ} (hr : r < s.rel.sent.count) (b : TTSentBuf) :
    (TTSentBuf.readSlot (sentIdx (s.rel.sent.head + r))
      (s.rel.sent.m (sentIdx (s.rel.sent.head + r))).data.length b).length ≤ ttFrameDataMax := by
  have hl := h.range.rel.lengths _ (Ring.mem_entries.mpr ⟨r, hr, rfl⟩)
  change (s.rel.sent.m (sentIdx (s.rel.sent.head + r))).data.length ≤ ttFrameDataMax at hl
  rw [TTSentBuf.readSlot, List.length_append, List.length_take, List.length_replicate]
  omega

theorem relResend (h : s.Bounded) (cap : ℕ) (ρ : ℕ → Draws) {n r : ℕ}
    (hn : r + n ≤ s.rel.sent.count) : (relResend C cap ρ n r s).1.Bounded := by
  induction n generalizing r s with
  | zero =>
    have hr := h.range.rel
    exact h.with_rel ⟨hr.count, hr.tags, hr.lengths, hr.recvAcked, hr.reqGen, hr.reqFrom, hr.repGen,
      hr.repFrom, hr.repPos⟩
  | succ n ih =>
    unfold TkTox.relResend
    dsimp only
    split_ifs with hskip
    · exact ih h (by omega)
    · have ht := h.resend_text (show r < s.rel.sent.count by omega)
      have he := h.emit C cap false (ρ r) ht
      split
      · rename_i heq
        rw [heq] at he
        exact he.with_rel (he.range.rel.compact _)
      · rename_i hne heq
        rw [heq] at he
        refine ih he ?_
        obtain ⟨-, -, hc⟩ | ⟨-, -, hc⟩ | ⟨-, f, hf, hc⟩ := emitFrame_cases C s
          (TTSentBuf.readSlot (sentIdx (s.rel.sent.head + r))
            (s.rel.sent.m (sentIdx (s.rel.sent.head + r))).data.length) cap false (ρ r)
        · rw [hc] at heq
          cases heq
          change r + 1 + n ≤ s.rel.sent.count
          omega
        · rw [hc] at heq
          cases heq
          change r + 1 + n ≤ s.rel.sent.count
          omega
        · obtain ⟨x, l, rfl⟩ := List.exists_cons_of_ne_nil (emitEncode_length_le hf).2.2
          rw [hc] at heq
          cases heq
          exact absurd rfl (hne x l)

theorem establish (h : s.Bounded) (f1 f2 f3 ss ika ikb : Key) (i : Bool) :
    (TkTox.establish C s f1 f2 f3 ss ika ikb i ρ).Bounded :=
  ⟨⟨.reset C _ _, .reset C _ _, h.range.rel⟩, h.stash⟩

theorem preserve (h : s.Bounded) : (reestablishPreserve s).Bounded :=
  ⟨⟨.zero, .zero, h.range.rel⟩, h.stash⟩

theorem target (h : s.Bounded) : (initTarget s).Bounded := by
  unfold initTarget
  split_ifs
  · exact h.preserve
  · exact h

theorem mark (h : s.Bounded) : (ackMark s).Bounded := by
  simp only [ackMark]
  split_ifs
  · have hr := h.range.rel
    exact h.with_rel ⟨hr.count, hr.tags, hr.lengths, Nat.mod_lt _ (by decide), hr.reqGen, hr.reqFrom,
      hr.repGen, hr.repFrom, hr.repPos⟩
  · exact h

theorem rekeyed (h : s.Bounded) (hdr : Bytes) : (applyRekey C s hdr ρ).Bounded := by
  unfold applyRekey
  dsimp only
  split
  · exact h
  · exact (h.with_recv (h.range.recv.fold _ _)).of_eq rfl rfl rfl rfl

theorem published (h : s.Bounded) (hdr : Bytes) : (applyKempub C s hdr).Bounded := by
  unfold applyKempub
  split
  · exact h
  · exact h.of_eq rfl rfl rfl rfl

theorem header (h : s.Bounded) (hdr : Bytes) : (applyHdr C s hdr ρ).Bounded := by
  unfold applyHdr
  split_ifs
  · exact h.rekeyed hdr
  · exact h.published hdr
  · exact h

theorem requested (h : s.Bounded) :
    TTSession.Bounded { s with rel := { s.rel with
      resendReqPending := true, resendReqGen := relGen C s.root, resendReqFrom := s.recv.seq } } := by
  have hr := h.range.rel
  exact h.with_rel ⟨hr.count, hr.tags, hr.lengths, hr.recvAcked, relGen_lt C _, h.range.recv.seq,
    hr.repGen, hr.repFrom, hr.repPos⟩

theorem reject (h : s.Bounded) {seq : ℕ} {key : Key} {taken : Option TTRatchet}
    (hk : recvKey C s.recv seq = .ok (key, taken)) : (dataReject C s seq key taken).Bounded := by
  unfold dataReject
  obtain ⟨rfl, -⟩ | ⟨r, rfl, hlt, ht⟩ := recvKey_cases hk
  · dsimp only
    split_ifs
    · exact h.requested
    · exact h
  · have hr := h.range.recv
    have hb := h.with_recv ((hr.skippedTake ht).skippedAdd (hlt.trans hr.seq) key)
    dsimp only
    split_ifs
    · exact hb.requested
    · exact hb

theorem feedData (h : s.Bounded) {input : Bytes} {d : TTFrameDesc} (hp : ttFramePeek input = some d)
    (cap : ℕ) : (TkTox.feedData C s ρ input d cap).session.Bounded := by
  obtain ⟨e, he⟩ | ⟨-, key, taken, hk, -, he⟩ | ⟨-, key, taken, pt, hk, -, he⟩ :=
    feedData_cases (C := C) (s := s) (ρ := ρ) cap hp
  · rw [he]
    exact h
  · rw [he]
    exact h.reject hk
  · rw [he]
    apply header
    apply mark
    apply h.with_recv
    obtain ⟨rfl, -⟩ | ⟨r, rfl, -, ht⟩ := recvKey_cases hk
    · exact h.range.recv.commit d.seq
    · exact h.range.recv.skippedTake ht

theorem feed (h : s.Bounded) (env : TTE2EEEnv) (input : Bytes) (cap : ℕ) :
    (ttSessionFeed C s env ρ input cap).session.Bounded := by
  obtain hf | ⟨d, hp, ⟨ht, hf⟩ | ⟨-, hf⟩ | ⟨type, -, -, hf⟩ | ⟨-, last, hf⟩⟩ :=
    ttSessionFeed_dispatch (C := C) s env ρ input cap
  · rw [hf]
    exact h
  · rw [hf]
    by_cases hr : initReachesOpen C s env input d
    · obtain he | he := feedInit_fresh (ρ := ρ) hr
      · rw [he]
        exact h
      rw [he]
      obtain ⟨-, e, ha⟩ | ⟨-, -, key, ha⟩ | ⟨-, key, f, -, ha⟩ :=
        acceptInit_cases C (initTarget s) env ρ (hdrIk d.hdr) hp
      · rw [ha]
        exact h.target
      · rw [ha]
        exact h.target.of_eq rfl rfl rfl rfl
      · rw [ha]
        have hscratch : (responderScratch C (initTarget s) ρ key d.hdr).Bounded :=
          h.target.of_eq rfl rfl rfl rfl
        exact (hscratch.establish (C := C) (ρ := ρ) _ _ _ _ _ _ _).of_eq rfl rfl rfl rfl
    · rw [(feedInit_early (ρ := ρ) ht hr).1]
      exact h
  · rw [hf]
    obtain ⟨ret, hr⟩ | ⟨-, -, -, -, f, -, hr⟩ := feedReply_cases C s env ρ hp
    · rw [hr]
      exact h
    · rw [hr]
      exact (h.establish (C := C) (ρ := ρ) _ _ _ _ _ _ _).of_eq rfl rfl rfl rfl
  · rw [hf]
    obtain ⟨ret, hr⟩ | ⟨-, -, -, d', payload, -, -, hr⟩ := feedControl_cases C s input d type
    · rw [hr]
      exact h
    · rw [hr]
      exact h.with_rel (h.range.rel.control type payload)
  · rw [hf]
    exact (h.of_eq (t := { s with lastIn := last }) rfl rfl rfl rfl).feedData hp cap

theorem start (h : s.Bounded) (env : TTE2EEEnv) (now : ℤ) (cap : ℕ) :
    (ttSessionStart C s env ρ now cap).1.Bounded := by
  unfold ttSessionStart
  split
  · exact h
  dsimp only
  split
  · exact h.preserve.of_eq rfl rfl rfl rfl
  split <;> exact h.preserve.of_eq rfl rfl rfl rfl

theorem step (h : s.Bounded) (op : SessionOp) : (sessionStep C s op).Bounded := by
  cases op with
  | start env ρ now cap => exact h.start env now cap
  | reply env ρ cap =>
    simp only [sessionStep, ttSessionReply]
    split
    · exact h
    split_ifs
    · exact h
    · exact h
    split
    · exact h.of_eq rfl rfl rfl rfl
    split <;> exact h.of_eq rfl rfl rfl rfl
  | tick env ρ now cap =>
    simp only [sessionStep, ttSessionTick]
    split_ifs
    · exact h
    · exact h.of_eq rfl rfl rfl rfl
  | feed env ρ input cap => exact h.feed env input cap
  | send text cap ρ =>
    simp only [sessionStep, ttSessionSend]
    split_ifs with hl ha hp ht
    · exact h
    · exact h
    · refine ⟨⟨h.range.send, h.range.recv, h.range.rel⟩, fun x hx => ?_⟩
      obtain hx | hx := List.mem_append.mp hx
      · exact h.stash x hx
      · rw [List.mem_singleton.mp hx]
        exact not_lt.mp hl
    · exact h
    · exact h.emit C cap false ρ fun _ => not_lt.mp hl
  | sendLossy text cap ρ =>
    simp only [sessionStep, ttSessionSendLossy]
    split_ifs with hl ha
    · exact h
    · exact h
    · exact h.emit C cap false ρ fun _ => not_lt.mp hl
  | flush cap ρ =>
    simp only [sessionStep, ttSessionFlush]
    split
    · rename_i text rest ha hp
      have ht : text.length ≤ ttFrameDataMax := h.stash text (hp ▸ List.mem_cons_self)
      have hrest : ∀ x ∈ rest, x.length ≤ ttFrameDataMax := fun x hx =>
        h.stash x (hp ▸ List.mem_cons_of_mem _ hx)
      have he := h.emit C cap false ρ (fun _ => ht : ∀ _ : TTSentBuf, text.length ≤ ttFrameDataMax)
      split
      · rename_i heq
        rw [heq] at he
        exact ⟨⟨he.range.send, he.range.recv, he.range.rel⟩, hrest⟩
      · rename_i heq
        rw [heq] at he
        exact he
    · exact h
  | relPoll cap ρ =>
    have hr := h.range.rel
    simp only [sessionStep, ttSessionRelPoll]
    split_ifs
    · exact h
    · exact h.with_rel ⟨hr.count, hr.tags, hr.lengths, hr.recvAcked, hr.reqGen, hr.reqFrom, hr.repGen,
        hr.repFrom, hr.repPos⟩
    · exact h.relResend cap ρ (by omega)
    · exact h.with_rel ⟨hr.count, hr.tags, hr.lengths, hr.recvAcked, hr.reqGen, hr.reqFrom, hr.repGen,
        hr.repFrom, hr.repPos⟩
    · exact h
  | carrier cap ρ =>
    simp only [sessionStep, ttSessionCarrier]
    split_ifs
    · exact h
    · exact h
    · exact h
    · exact h
    · exact h.emit C cap true ρ fun _ => Nat.zero_le _
  | carrierDone => exact h.of_eq rfl rfl rfl rfl
  | rekeyDue =>
    simp only [sessionStep, ttSessionRekeyDue]
    split_ifs
    · exact h.of_eq rfl rfl rfl rfl
    · exact h

end TTSession.Bounded

theorem zero_bounded : TTSession.zero.Bounded := by
  have he : TTSession.zero.rel.sent.entries = [] := rfl
  refine ⟨⟨.zero, .zero, ?_⟩, by simp [TTSession.zero]⟩
  refine ⟨by decide, ?_, ?_, by decide, by decide, by decide, by decide, by decide, by decide⟩
  · rw [he]
    simp
  · rw [he]
    simp

end TkTox
