import TkTox.ResendDrain
import TkTox.ReceiveHygiene

/-!
Out-of-order delivery between two folds. The sender's walk of the chain, the receiver's scratch
walk and its committing walk give the same key to the same seq.
-/

namespace TkTox

variable {C : Crypto}

def chainAt (C : Crypto) (chain : Key) (n : ℕ) : Key := (nextChain C)^[n] chain

def keyAt (C : Crypto) (chain : Key) (n : ℕ) : Key := (chainMaterial C (chainAt C chain n)).1

theorem chainAt_succ (chain : Key) (n : ℕ) :
    chainAt C chain (n + 1) = nextChain C (chainAt C chain n) :=
  Function.iterate_succ_apply' _ _ _

theorem chainAt_add (chain : Key) (m n : ℕ) :
    chainAt C (chainAt C chain m) n = chainAt C chain (m + n) := by
  rw [chainAt, chainAt, chainAt, Nat.add_comm, Function.iterate_add_apply]

inductive PlainBatch (C : Crypto) : TTSession → List (Bytes × Bytes) → Prop
  | nil (s : TTSession) : PlainBatch C s []
  | emit {s s' : TTSession} {text : TTSentBuf → Bytes} {cap : ℕ} {b : Bool} {ρ : Draws} {f : Bytes}
      {batch : List (Bytes × Bytes)} (hdue : dueHdrLen C s b = 0)
      (hlen : (text s.rel.sent).length ≤ ttFrameDataMax)
      (hemit : emitFrame C s text cap b ρ = (s', .ok f)) (rest : PlainBatch C s' batch) :
      PlainBatch C s ((text s.rel.sent, f) :: batch)
  | other {s s' : TTSession} {batch : List (Bytes × Bytes)} (hchain : s'.send.chain = s.send.chain)
      (hseq : s'.send.seq = s.send.seq) (rest : PlainBatch C s' batch) : PlainBatch C s batch

def OpensTo (C : Crypto) (key : Key) (seq : ℕ) (text f : Bytes) : Prop :=
  ∃ d, ttFrameDecode C f key ttFrameDataMax = some (d, text) ∧ d.type = some .data ∧
    d.seq = seq ∧ d.hdr = []

theorem emitDone_chain {s : TTSession} {b : Bool} (hdue : dueHdrLen C s b = 0)
    (text : TTSentBuf → Bytes) (ρ : Draws) (f : Bytes) :
    (emitDone C s text b ρ f).send.chain = nextChain C s.send.chain := by
  have hlen := emitHdr_length (C := C) (s := s) (ρ := ρ) b
  have hfold : (emitHdr C s b ρ).fold = none := by
    obtain ⟨-, -, h⟩ | ⟨-, -, h⟩ | ⟨h, -, -⟩ := emitHdr_fits C s b ρ
    · exact h
    · exact h
    · rw [h, hdue] at hlen
      cases hlen
  unfold emitDone parkCarrier finishFold
  rw [hfold]
  split_ifs <;> rfl

theorem emitFrame_opensTo (hC : C.AeadCorrect) {s s' : TTSession} {text : TTSentBuf → Bytes}
    {cap : ℕ} {b : Bool} {ρ : Draws} {f : Bytes} (hq : s.send.seq < 2 ^ 32)
    (hdue : dueHdrLen C s b = 0) (hlen : (text s.rel.sent).length ≤ ttFrameDataMax)
    (h : emitFrame C s text cap b ρ = (s', .ok f)) :
    OpensTo C (keyAt C s.send.chain 0) s.send.seq (text s.rel.sent) f ∧
      s'.send.chain = nextChain C s.send.chain ∧ s'.send.seq = seqNext s.send.seq := by
  obtain ⟨-, -, he⟩ | ⟨-, -, he⟩ | ⟨-, g, hg, he⟩ := emitFrame_cases C s text cap b ρ
  · rw [he] at h
    cases h
  · rw [he] at h
    cases h
  · rw [he] at h
    cases h
    have hhdr : (emitHdr C s b ρ).hdr = [] := by
      apply List.eq_nil_of_length_eq_zero
      rw [emitHdr_length, hdue]
    refine ⟨⟨_, ttFrameDecode_encode hC ttFrameDataMax hq hg hlen, rfl, rfl, hhdr⟩, ?_, ?_⟩
    · exact emitDone_chain hdue _ _ _
    · exact emitDone_seq _ _ _

-- Frame `i` of the batch is the one of chain step `i`.
theorem PlainBatch.opensTo (hC : C.AeadCorrect) {s : TTSession} {batch : List (Bytes × Bytes)}
    (h : PlainBatch C s batch) (hq : s.send.seq < 2 ^ 32) {i : ℕ} {text f : Bytes}
    (hi : batch[i]? = some (text, f)) :
    OpensTo C (keyAt C s.send.chain i) ((s.send.seq + i) % 2 ^ 32) text f := by
  induction h generalizing i with
  | nil s => cases hi
  | emit hdue hlen hemit rest ih =>
    obtain ⟨hopen, hchain, hseq⟩ := emitFrame_opensTo hC hq hdue hlen hemit
    cases i with
    | zero =>
      cases hi
      rw [Nat.add_zero, Nat.mod_eq_of_lt hq]
      exact hopen
    | succ i =>
      have := ih (by rw [hseq]; exact seqNext_lt _) hi
      rw [hchain, hseq, seqNext, Nat.mod_add_mod] at this
      rw [Nat.add_assoc, Nat.add_comm 1 i] at this
      exact this
  | other hchain hseq rest ih =>
    rw [← hchain, ← hseq]
    exact ih (hseq ▸ hq) hi

def seqAt (first i : ℕ) : ℕ := (first + i) % 2 ^ 32

structure Delivered where
  index : ℕ
  key : Except TTE2EEStatus Key
  ret : Except TTE2EEStatus Bytes

inductive DeliveryRun (C : Crypto) (P : ℕ → ℕ → TTRatchet → Prop) (first : ℕ) (batch : List (Bytes × Bytes)) :
    ℕ → TTSession → List Delivered → TTSession → Prop
  | done (m : ℕ) (r : TTSession) : DeliveryRun C P first batch m r [] r
  | feed {m : ℕ} {r r' : TTSession} {l : List Delivered} {i : ℕ} {text f : Bytes} (env : TTE2EEEnv) (ρ : Draws)
      (hi : batch[i]? = some (text, f)) (hahead : i < m + ttSessionMaxSkip)
      (hring : r.recv.skipped.length + (i - m) ≤ ttSessionSkippedMax) (hP : P m i r.recv)
      (rest : DeliveryRun C P first batch (max m (i + 1)) (ttSessionFeed C r env ρ f ttFrameDataMax).session l r') :
      DeliveryRun C P first batch m r
        (⟨i, (recvKey C r.recv (seqAt first i)).map Prod.fst, (ttSessionFeed C r env ρ f ttFrameDataMax).ret⟩ :: l) r'
  | other {m : ℕ} {r r' r'' : TTSession} {l : List Delivered} (hactive : r'.active = r.active)
      (hrecv : r'.recv = r.recv) (rest : DeliveryRun C P first batch m r' l r'') :
      DeliveryRun C P first batch m r l r''

def WrapOrdered (first m i : ℕ) (r : TTRatchet) : Prop :=
  i = m ∨ (first + i) / 2 ^ 32 = (first + m) / 2 ^ 32 ∧
    (i < m → (r.skipped.filter fun e => e.1 == seqAt first i).length ≤ 1)

def waiting (C : Crypto) (chain : Key) (first m : ℕ) (D : List ℕ) : List (ℕ × Key) :=
  ((List.range m).filter fun j => decide (j ∉ D)).map fun j => (seqAt first j, keyAt C chain j)

structure InStep (C : Crypto) (chain : Key) (first m : ℕ) (D : List ℕ) (r : TTRatchet) : Prop where
  seq : r.seq = seqAt first m
  chain_eq : r.chain = chainAt C chain m
  kept : (waiting C chain first m D).Sublist r.skipped
  passed : ∀ i ∈ D, i < m

theorem mem_waiting {C : Crypto} {chain : Key} {first m j : ℕ} {D : List ℕ} (hj : j < m) (hD : j ∉ D) :
    (seqAt first j, keyAt C chain j) ∈ waiting C chain first m D := by
  refine List.mem_map.mpr ⟨j, List.mem_filter.mpr ⟨List.mem_range.mpr hj, ?_⟩, rfl⟩
  exact decide_eq_true hD

theorem eq_of_length_le_one {α : Type} {l : List α} (hl : l.length ≤ 1) {a b : α} (ha : a ∈ l) (hb : b ∈ l) :
    a = b := by
  match l, hl with
  | [x], _ => rw [List.mem_singleton.mp ha, List.mem_singleton.mp hb]

theorem sendKey_iterate (s : TTRatchet) (n : ℕ) :
    (sendKey C ((sendAdvance C)^[n] s)).1.2 = chainMaterial C (chainAt C s.chain n) := by
  have hchain : ((sendAdvance C)^[n] s).chain = chainAt C s.chain n := by
    induction n with
    | zero => rfl
    | succ n ih =>
      rw [Function.iterate_succ_apply', chainAt_succ, ← ih]
      rfl
  rw [sendKey, hchain]

section

variable {chain : Key} {first m : ℕ} {D : List ℕ} {r : TTRatchet}

theorem recvSkipOne_iterate (k : ℕ) (hk : r.skipped.length + k ≤ ttSessionSkippedMax)
    (hq : r.seq + k < 2 ^ 32) :
    (recvSkipOne C)^[k] r = { r with
      chain := chainAt C r.chain k
      seq := r.seq + k
      skipped := r.skipped ++ (List.range k).map fun j => (r.seq + j, keyAt C r.chain j) } := by
  induction k with
  | zero => simp [chainAt]
  | succ k ih =>
    simp only [ttSessionSkippedMax] at hk
    rw [Function.iterate_succ_apply', ih (by simp only [ttSessionSkippedMax]; omega) (by omega)]
    have hroom : ¬ (r.skipped ++ (List.range k).map fun j =>
        (r.seq + j, keyAt C r.chain j)).length ≥ ttSessionSkippedMax := by
      rw [List.length_append, List.length_map, List.length_range]
      simp only [ttSessionSkippedMax]
      omega
    rw [recvSkipOne, skippedAdd]
    dsimp only
    rw [if_neg hroom, seqNext, Nat.mod_eq_of_lt (by omega), ← chainAt_succ, List.range_succ,
      List.map_append, List.append_assoc]
    rfl

theorem seqAt_sub {i : ℕ} (hmi : m ≤ i) (hside : i = m ∨ (first + i) / 2 ^ 32 = (first + m) / 2 ^ 32) :
    seqAt first i = seqAt first m + (i - m) := by
  unfold seqAt
  omega

theorem InStep.msgKeyAt (h : InStep C chain first m D r) {i : ℕ} (hi : m ≤ i)
    (hside : i = m ∨ (first + i) / 2 ^ 32 = (first + m) / 2 ^ 32) :
    (msgKeyAt C r (seqAt first i)).1 = keyAt C chain i := by
  have hn : seqAt first i - r.seq = i - m := by
    rw [h.seq, seqAt_sub hi hside]
    omega
  rw [TkTox.msgKeyAt, hn, h.chain_eq]
  change (chainMaterial C (chainAt C (chainAt C chain m) (i - m))).1 = _
  rw [chainAt_add, Nat.add_sub_cancel' hi, keyAt]

theorem InStep.commit (h : InStep C chain first m D r) {i : ℕ} (hi : m ≤ i)
    (hside : i = m ∨ (first + i) / 2 ^ 32 = (first + m) / 2 ^ 32)
    (hring : r.skipped.length + (i - m) ≤ ttSessionSkippedMax) :
    InStep C chain first (i + 1) (i :: D) (recvCommit C r (seqAt first i)) := by
  have hsub : seqAt first i = seqAt first m + (i - m) := seqAt_sub hi hside
  have hlt : seqAt first i < 2 ^ 32 := Nat.mod_lt _ (by norm_num)
  have hn : seqAt first i - r.seq = i - m := by
    rw [h.seq]
    omega
  have hwalk := recvSkipOne_iterate (C := C) (r := r) (i - m) hring (by rw [h.seq]; omega)
  have hkey (j : ℕ) : keyAt C r.chain j = keyAt C chain (m + j) := by
    rw [keyAt, h.chain_eq, chainAt_add, keyAt]
  rw [recvCommit, hn, hwalk]
  constructor
  case seq =>
    change seqNext (r.seq + (i - m)) = _
    rw [h.seq, ← hsub, seqNext, seqAt, seqAt, Nat.mod_add_mod, Nat.add_assoc]
  case chain_eq =>
    change nextChain C (chainAt C r.chain (i - m)) = _
    rw [h.chain_eq, chainAt_add, Nat.add_sub_cancel' hi, chainAt_succ]
  case kept =>
    have hold : (((List.range m).filter fun j => decide (j ∉ i :: D)).map fun j =>
        (seqAt first j, keyAt C chain j)).Sublist r.skipped := by
      refine List.Sublist.trans (List.Sublist.map _ ?_) h.kept
      apply List.monotone_filter_right
      intro j hj
      exact decide_eq_true (List.ne_and_not_mem_of_not_mem_cons (of_decide_eq_true hj)).2
    have hsplit : List.range (i + 1) = List.range m ++ ((List.range (i - m)).map (m + ·) ++ [i]) := by
      have hmi : i + 1 = m + (i - m + 1) := by omega
      rw [hmi, List.range_add, List.range_succ, List.map_append, List.map_singleton, Nat.add_sub_cancel' hi]
    have hnew : ((((List.range (i - m)).map (m + ·) ++ [i]).filter fun j => decide (j ∉ i :: D)).map fun j =>
        (seqAt first j, keyAt C chain j)).Sublist
        ((List.range (i - m)).map fun j => (r.seq + j, keyAt C r.chain j)) := by
      have hlast : ([i].filter fun j => decide (j ∉ i :: D)) = [] := by simp
      have heq : (((List.range (i - m)).map (m + ·)).map fun j => (seqAt first j, keyAt C chain j)) =
          (List.range (i - m)).map fun j => (r.seq + j, keyAt C r.chain j) := by
        rw [List.map_map]
        apply List.map_congr_left
        intro j hj
        have hj' := List.mem_range.mp hj
        have hstep : seqAt first (m + j) = seqAt first m + (m + j - m) :=
          seqAt_sub (by omega) (Or.inr (by omega))
        rw [Function.comp_apply, hkey, h.seq, hstep, Nat.add_sub_cancel_left]
      rw [List.filter_append, hlast, List.append_nil, ← heq]
      exact List.Sublist.map _ List.filter_sublist
    rw [waiting, hsplit, List.filter_append, List.map_append]
    exact hold.append hnew
  case passed =>
    intro x hx
    obtain rfl | hx := List.mem_cons.mp hx
    · omega
    · have := h.passed x hx
      omega

theorem InStep.late (h : InStep C chain first m D r) {i : ℕ} (hi : i < m) (hD : i ∉ D)
    (hone : (r.skipped.filter fun e => e.1 == seqAt first i).length ≤ 1) :
    ∃ r', skippedTake r (seqAt first i) = some (keyAt C chain i, r') ∧
      InStep C chain first m (i :: D) r' := by
  have hmem := h.kept.subset (mem_waiting hi hD : (seqAt first i, keyAt C chain i) ∈ waiting C chain first m D)
  -- no other frame waits under the seq
  have hdiff {j : ℕ} (hj : j < m) (hjD : j ∉ D) (he : seqAt first j = seqAt first i) : j = i := by
    have hle := ((h.kept.filter fun e => e.1 == seqAt first i).length_le).trans hone
    rw [waiting, List.filter_map, List.length_map, List.filter_filter] at hle
    have hin {k : ℕ} (hk : k < m) (hkD : k ∉ D) (he : seqAt first k = seqAt first i) :
        k ∈ (List.range m).filter fun j => (((fun e : ℕ × Key => e.1 == seqAt first i) ∘ fun j =>
          (seqAt first j, keyAt C chain j)) j && decide (j ∉ D)) := by
      refine List.mem_filter.mpr ⟨List.mem_range.mpr hk, ?_⟩
      simp [hkD, he]
    exact eq_of_length_le_one hle (hin hj hjD he) (hin hi hD rfl)
  cases ht : skippedTake r (seqAt first i) with
  | none =>
    have hnone := List.find?_eq_none.mp (Option.map_eq_none_iff.mp ht) _ hmem
    simp at hnone
  | some p =>
    obtain ⟨key, r'⟩ := p
    obtain ⟨pre, post, hl, -, rfl⟩ := skippedTake_split ht
    -- the entry taken is the only one under the seq
    have hfilter : (pre ++ post).filter (fun e => e.1 == seqAt first i) = [] := by
      rw [hl, List.filter_append, List.filter_cons_of_pos (by simp), List.length_append, List.length_cons] at hone
      rw [List.filter_append, ← List.length_eq_zero_iff, List.length_append]
      omega
    have hother : ∀ e ∈ pre ++ post, e.1 ≠ seqAt first i := by
      intro e he heq
      have hnot := List.filter_eq_nil_iff.mp hfilter e he
      simp [heq] at hnot
    have hsplit : ∀ e ∈ r.skipped, e = (seqAt first i, key) ∨ e ∈ pre ++ post := by
      intro e he
      rw [hl] at he
      obtain he | he := List.mem_append.mp he
      · exact Or.inr (List.mem_append_left _ he)
      · exact (List.mem_cons.mp he).imp id (List.mem_append_right _)
    have hkey : key = keyAt C chain i := by
      obtain he | he := hsplit _ hmem
      · exact (Prod.mk.inj he).2.symm
      · exact absurd rfl (hother _ he)
    refine ⟨{ r with skipped := pre ++ post }, by rw [hkey], h.seq, h.chain_eq, ?_, ?_⟩
    · have hring : r.skipped.filter (fun e => !(e.1 == seqAt first i)) = pre ++ post := by
        rw [hl, List.filter_append, List.filter_cons_of_neg (by simp), ← List.filter_append]
        apply List.filter_eq_self.mpr
        intro e he
        simpa using hother e he
      rw [← hring]
      refine List.Sublist.trans ?_ (h.kept.filter _)
      have heq : ((List.range m).filter fun j => decide (j ∉ i :: D)) =
          ((List.range m).filter fun j => decide (j ∉ D)).filter fun j => !(seqAt first j == seqAt first i) := by
        rw [List.filter_filter]
        apply List.filter_congr
        intro j hj
        have hj' := hdiff (List.mem_range.mp hj)
        by_cases hji : j = i
        · simp [hji]
        · by_cases hjD : j ∈ D
          · simp [hjD]
          · have hne : seqAt first j ≠ seqAt first i := fun he => hji (hj' hjD he)
            simp [hji, hjD, hne]
      rw [waiting, waiting, heq, List.filter_map]
      exact List.Sublist.refl _
    · intro x hx
      obtain rfl | hx := List.mem_cons.mp hx
      · exact hi
      · exact h.passed x hx

theorem InStep.recvKey (h : InStep C chain first m D r) {i : ℕ} (hD : i ∉ D) (hahead : i < m + ttSessionMaxSkip)
    (hring : r.skipped.length + (i - m) ≤ ttSessionSkippedMax) (hside : WrapOrdered first m i r) :
    ∃ taken, recvKey C r (seqAt first i) = .ok (keyAt C chain i, taken) ∧
      InStep C chain first (max m (i + 1)) (i :: D) (taken.getD (recvCommit C r (seqAt first i))) := by
  have hs := h.seq
  by_cases hi : m ≤ i
  · have hside' : i = m ∨ (first + i) / 2 ^ 32 = (first + m) / 2 ^ 32 := hside.imp id And.left
    have hsub : seqAt first i = seqAt first m + (i - m) := seqAt_sub hi hside'
    refine ⟨none, ?_, ?_⟩
    · unfold TkTox.recvKey
      rw [h.msgKeyAt hi hside']
      split_ifs with h1 h2 h3
      · rfl
      · omega
      · rfl
      · omega
    · rw [max_eq_right (by omega)]
      exact h.commit hi hside' hring
  · obtain rfl | ⟨hsame, hone⟩ := hside
    · omega
    have hlt : seqAt first i < seqAt first m := by
      unfold seqAt
      omega
    obtain ⟨r', ht, hr'⟩ := h.late (by omega) hD (hone (by omega))
    refine ⟨some r', ?_, ?_⟩
    · unfold TkTox.recvKey
      rw [if_neg (by omega), if_neg (by omega), ht]
    · rw [max_eq_left (by omega)]
      exact hr'

end

theorem feed_plain {s : TTSession} {text f : Bytes} {seq : ℕ} {key : Key} {taken : Option TTRatchet}
    (env : TTE2EEEnv) (ρ : Draws) (ha : s.active = true) (ho : OpensTo C key seq text f)
    (hk : recvKey C s.recv seq = .ok (key, taken)) :
    (ttSessionFeed C s env ρ f ttFrameDataMax).ret = .ok text ∧
      (ttSessionFeed C s env ρ f ttFrameDataMax).session.recv =
        taken.getD (recvCommit C s.recv seq) ∧
      (ttSessionFeed C s env ρ f ttFrameDataMax).session.active = true := by
  obtain ⟨d, hd, ht, rfl, hh⟩ := ho
  have hp := ttFrameDecode_isSome_peek hd
  have hfeed : ttSessionFeed C s env ρ f ttFrameDataMax =
      feedData C { s with lastIn := f } ρ f d ttFrameDataMax := by
    rw [ttSessionFeed, hp]
    dsimp only
    rw [ht]
  have hdata : feedData C { s with lastIn := f } ρ f d ttFrameDataMax =
      ⟨applyHdr C (ackMark { s with
        lastIn := f
        recv := taken.getD (recvCommit C s.recv d.seq) }) d.hdr ρ, .ok text, false⟩ := by
    rw [feedData, if_neg (by simp [ha]), if_neg (by simp [hh]), hk]
    dsimp only
    rw [hd]
  have happly (t : TTSession) : applyHdr C t d.hdr ρ = t := by
    rw [hh]
    rfl
  obtain ⟨rel, hm⟩ := ackMark_frame { s with
    lastIn := f
    recv := taken.getD (recvCommit C s.recv d.seq) }
  rw [hfeed, hdata, happly, hm]
  exact ⟨rfl, rfl, ha⟩

/-! ### The run -/

def highest (m : ℕ) (l : List Delivered) : ℕ := l.foldl (fun m x => max m (x.index + 1)) m

section

variable {first : ℕ} {batch : List (Bytes × Bytes)} {chain : Key} {r r' : TTSession} {l : List Delivered}

theorem DeliveryRun.inStep {m : ℕ} {D : List ℕ}
    (hopen : ∀ i text f, batch[i]? = some (text, f) → OpensTo C (keyAt C chain i) (seqAt first i) text f)
    (hrun : DeliveryRun C (WrapOrdered first) first batch m r l r') (ha : r.active = true)
    (h : InStep C chain first m D r.recv) (hD : ∀ x ∈ l, x.index ∉ D) (hnodup : (l.map Delivered.index).Nodup) :
    (∀ x ∈ l, x.key = .ok (keyAt C chain x.index) ∧
      ∃ text f, batch[x.index]? = some (text, f) ∧ x.ret = .ok text) ∧
      ∃ D', InStep C chain first (highest m l) D' r'.recv := by
  induction hrun generalizing D with
  | done m r => exact ⟨fun x hx => (by cases hx), D, h⟩
  | feed env ρ hi hahead hring hP rest ih =>
    rename_i m r _ l i text f
    obtain ⟨taken, hk, hstep⟩ := h.recvKey (hD _ List.mem_cons_self) hahead hring hP
    obtain ⟨hret, hrecv, hactive⟩ := feed_plain env ρ ha (hopen i text f hi) hk
    rw [List.map_cons, List.nodup_cons] at hnodup
    obtain ⟨hall, hend⟩ := ih hactive (hrecv ▸ hstep)
      (fun x hx hm => by
        obtain he | hm := List.mem_cons.mp hm
        · exact hnodup.1 (List.mem_map.mpr ⟨x, hx, he⟩)
        · exact hD x (List.mem_cons_of_mem _ hx) hm)
      hnodup.2
    refine ⟨fun x hx => ?_, hend⟩
    obtain rfl | hx := List.mem_cons.mp hx
    · refine ⟨?_, text, f, hi, hret⟩
      rw [hk]
      rfl
    · exact hall x hx
  | other hactive hrecv rest ih => exact ih (hactive.trans ha) (hrecv ▸ h) hD hnodup

def feedAll (C : Crypto) (env : TTE2EEEnv) (ρ : Draws) : TTSession → List Bytes → TTSession
  | r, [] => r
  | r, f :: fs => feedAll C env ρ (ttSessionFeed C r env ρ f ttFrameDataMax).session fs

theorem feedAll_inOrder
    (hopen : ∀ i text f, batch[i]? = some (text, f) → OpensTo C (keyAt C chain i) (seqAt first i) text f)
    (env : TTE2EEEnv) (ρ : Draws) (n : ℕ) {m : ℕ} (ha : r.active = true) (hseq : r.recv.seq = seqAt first m)
    (hchain : r.recv.chain = chainAt C chain m) (hlen : m + n ≤ batch.length) :
    (feedAll C env ρ r (((batch.drop m).take n).map Prod.snd)).recv.seq = seqAt first (m + n) ∧
      (feedAll C env ρ r (((batch.drop m).take n).map Prod.snd)).recv.chain = chainAt C chain (m + n) := by
  induction n generalizing r m with
  | zero => exact ⟨hseq, hchain⟩
  | succ n ih =>
    have hlt : m < batch.length := by omega
    obtain ⟨⟨text, f⟩, hf⟩ : ∃ p, batch[m]? = some p := ⟨_, List.getElem?_eq_getElem hlt⟩
    have hdrop : batch.drop m = (text, f) :: batch.drop (m + 1) := by
      rw [List.drop_eq_getElem_cons hlt]
      rw [List.getElem?_eq_getElem hlt] at hf
      rw [Option.some.inj hf]
    have ho := hopen m text f hf
    rw [← hseq] at ho
    have hk : recvKey C r.recv r.recv.seq = .ok (keyAt C chain m, none) := by
      rw [recvKey, if_pos rfl, msgKeyAt_self, hchain, keyAt]
    obtain ⟨-, hrecv, hactive⟩ := feed_plain env ρ ha ho hk
    rw [Option.getD_none, recvCommit_self] at hrecv
    rw [hdrop, List.take_succ_cons, List.map_cons, feedAll]
    have hnext : seqNext (seqAt first m) = seqAt first (m + 1) := by
      rw [seqNext, seqAt, seqAt, Nat.mod_add_mod, Nat.add_assoc]
    have hih := ih (m := m + 1) hactive (by rw [hrecv, sendAdvance_seq, hseq, hnext])
      (by rw [hrecv, chainAt_succ, ← hchain]; rfl) (by omega)
    have hc : m + 1 + n = m + (n + 1) := by omega
    rw [hc] at hih
    exact hih

end

theorem highest_le {batch : List (Bytes × Bytes)} {l : List Delivered} (hl : ∀ x ∈ l, x.index < batch.length)
    {m : ℕ} (hm : m ≤ batch.length) : highest m l ≤ batch.length := by
  induction l generalizing m with
  | nil => exact hm
  | cons x l ih =>
    exact ih (fun y hy => hl y (List.mem_cons_of_mem _ hy)) (max_le hm (hl x List.mem_cons_self))

structure KeysAgree (C : Crypto) (s r : TTRatchet) : Prop where
  scratch : ∀ i, msgKeyAt C r (r.seq + i) = (sendKey C ((sendAdvance C)^[i] s)).1.2
  ring : ∀ n i, i < n → r.skipped.length + n ≤ ttSessionSkippedMax → r.seq + n < 2 ^ 32 →
    r.seq + i ∉ r.skipped.map Prod.fst →
    (skippedTake (recvCommit C r (r.seq + n)) (r.seq + i)).map Prod.fst =
      some (sendKey C ((sendAdvance C)^[i] s)).1.2.1

theorem keysAgree {s r : TTRatchet} (hchain : r.chain = s.chain) : KeysAgree C s r := by
  constructor
  case scratch =>
    intro i
    rw [sendKey_iterate, msgKeyAt, Nat.add_sub_cancel_left, hchain]
    rfl
  case ring =>
    intro n i hi hroom hq hnew
    have hwalk := recvSkipOne_iterate (C := C) (r := r) n hroom hq
    have hskip : (recvCommit C r (r.seq + n)).skipped =
        r.skipped ++ (List.range n).map fun j => (r.seq + j, keyAt C r.chain j) := by
      rw [recvCommit, Nat.add_sub_cancel_left, hwalk]
      rfl
    have hold : r.skipped.find? (fun e => e.1 == r.seq + i) = none := by
      apply List.find?_eq_none.mpr
      intro e he heq
      exact hnew (List.mem_map.mpr ⟨e, he, by simpa using heq⟩)
    have hrange : ((List.range n).map fun j => (r.seq + j, keyAt C r.chain j)).find? (fun e => e.1 == r.seq + i) =
        some (r.seq + i, keyAt C r.chain i) := by
      rw [List.find?_map]
      have hfun : ((fun e : ℕ × Key => e.1 == r.seq + i) ∘ fun j => (r.seq + j, keyAt C r.chain j)) =
          fun j => j == i := by
        funext j
        simp
      have hfind : (List.range n).find? (fun j => j == i) = some i := by
        rw [List.find?_range_eq_some]
        refine ⟨by simp, List.mem_range.mpr hi, ?_⟩
        intro j hj
        simp [Nat.ne_of_lt hj]
      rw [hfun, hfind]
      rfl
    rw [skippedTake, hskip, List.find?_append, hold, Option.none_or, hrange, sendKey_iterate, ← hchain]
    rfl

/-- In whatever order the frames of a batch arrive, the receiver derives the key the sender drew for
each and it opens to its text, and the receiver ends where in-order delivery up to the highest one
ends; only a frame that comes out of turn may not do so across the wrap of the counter. -/
theorem outOfOrder_recovery (hC : C.AeadCorrect) {s r r' : TTSession} {batch : List (Bytes × Bytes)}
    {l : List Delivered} (hb : PlainBatch C s batch) (hs : s.send.seq < 2 ^ 32) (ha : r.active = true)
    (hchain : r.recv.chain = s.send.chain) (hseq : r.recv.seq = s.send.seq)
    (hrun : DeliveryRun C (WrapOrdered s.send.seq) s.send.seq batch 0 r l r')
    (hnodup : (l.map Delivered.index).Nodup) :
    KeysAgree C s.send r.recv ∧
    (∀ x ∈ l, x.key = .ok (sendKey C ((sendAdvance C)^[x.index] s.send)).1.2.1 ∧
      ∃ text f, batch[x.index]? = some (text, f) ∧ x.ret = .ok text) ∧
      ∀ env ρ, r'.recv.seq =
          (feedAll C env ρ r ((batch.take (highest 0 l)).map Prod.snd)).recv.seq ∧
        r'.recv.chain =
          (feedAll C env ρ r ((batch.take (highest 0 l)).map Prod.snd)).recv.chain := by
  have hopen : ∀ i text f, batch[i]? = some (text, f) →
      OpensTo C (keyAt C s.send.chain i) (seqAt s.send.seq i) text f :=
    fun i text f hi => hb.opensTo hC hs hi
  have hfirst : r.recv.seq = seqAt s.send.seq 0 := by
    rw [hseq, seqAt, Nat.add_zero, Nat.mod_eq_of_lt hs]
  have h0 : InStep C s.send.chain s.send.seq 0 [] r.recv := ⟨hfirst, hchain, List.nil_sublist _, by simp⟩
  obtain ⟨hall, D', hend⟩ := hrun.inStep hopen ha h0 (by simp) hnodup
  refine ⟨keysAgree hchain, ?_, fun env ρ => ?_⟩
  · intro x hx
    obtain ⟨hkey, htext⟩ := hall x hx
    refine ⟨?_, htext⟩
    rw [hkey, sendKey_iterate]
    rfl
  · have hlen : ∀ x ∈ l, x.index < batch.length := by
      intro x hx
      obtain ⟨-, text, f, hi, -⟩ := hall x hx
      exact (List.getElem?_eq_some_iff.mp hi).1
    have hle := highest_le (m := 0) hlen (Nat.zero_le _)
    obtain ⟨h1, h2⟩ := feedAll_inOrder (m := 0) hopen env ρ (highest 0 l) ha hfirst hchain (by omega)
    rw [List.drop_zero, Nat.zero_add] at h1 h2
    rw [h1, h2, hend.seq, hend.chain_eq]
    exact ⟨rfl, rfl⟩

namespace Instance

def emitOne (s : TTSession) (b : UInt8) : TTSession × Except TTE2EEStatus Bytes :=
  emitFrame crypto s (fun _ => [b]) ttFrameMax false (draws b)

theorem plainBatch_emitOne {s : TTSession} {b : UInt8} {batch : List (Bytes × Bytes)}
    (h : dueHdrLen crypto s false = 0 ∧ (emitOne s b).2 = .ok (okBytes (emitOne s b).2))
    (rest : PlainBatch crypto (emitOne s b).1 batch) :
    PlainBatch crypto s (([b], okBytes (emitOne s b).2) :: batch) :=
  .emit h.1 (by simp) (Prod.ext rfl h.2) rest

def frameAt (s : TTSession) : ℕ → Bytes
  | 0 => okBytes (emitOne s 1).2
  | _ => okBytes (emitOne (emitOne s 1).1 2).2

def twoFrames (s : TTSession) : List (Bytes × Bytes) := [([1], frameAt s 0), ([2], frameAt s 1)]

def feedFrame (r : TTSession) (f : Bytes) : FeedResult :=
  ttSessionFeed crypto r bobEnv (draws 8) f ttFrameDataMax

theorem twoFrames_plain {s : TTSession}
    (h : dueHdrLen crypto s false = 0 ∧ (emitOne s 1).2 = .ok (okBytes (emitOne s 1).2))
    (h' : dueHdrLen crypto (emitOne s 1).1 false = 0 ∧
      (emitOne (emitOne s 1).1 2).2 = .ok (okBytes (emitOne (emitOne s 1).1 2).2)) :
    PlainBatch crypto s (twoFrames s) :=
  plainBatch_emitOne h (plainBatch_emitOne h' (.nil _))

def InWindow (first m i : ℕ) (r : TTSession) : Prop :=
  i < m + ttSessionMaxSkip ∧ r.recv.skipped.length + (i - m) ≤ ttSessionSkippedMax ∧ WrapOrdered first m i r.recv

instance InWindow.decidable (first m i : ℕ) (r : TTSession) : Decidable (InWindow first m i r) :=
  inferInstanceAs (Decidable (_ ∧ _ ∧ (_ ∨ _ ∧ (_ → _))))

def fedFrame (first i : ℕ) (r : TTSession) (f : Bytes) : Delivered :=
  ⟨i, (recvKey crypto r.recv (seqAt first i)).map Prod.fst, (feedFrame r f).ret⟩

theorem deliveryRun_feedFrame {r r' : TTSession} {first m i : ℕ} {text f : Bytes}
    {batch : List (Bytes × Bytes)} {l : List Delivered} (hi : batch[i]? = some (text, f)) (hw : InWindow first m i r)
    (rest : DeliveryRun crypto (WrapOrdered first) first batch (max m (i + 1)) (feedFrame r f).session l r') :
    DeliveryRun crypto (WrapOrdered first) first batch m r (fedFrame first i r f :: l) r' :=
  .feed bobEnv (draws 8) hi hw.1 hw.2.1 hw.2.2 rest

def aliceLast : TTSession := { alice with send := { alice.send with seq := 2 ^ 32 - 1 } }

def bobLast : TTSession := { bob with recv := { bob.recv with seq := 2 ^ 32 - 1 } }

def twoFed (s r : TTSession) (i j : ℕ) : List Delivered :=
  [fedFrame s.send.seq i r (frameAt s i), fedFrame s.send.seq j (feedFrame r (frameAt s i)).session (frameAt s j)]

theorem twoFed_run {s r : TTSession} {i j : ℕ} {text text' : Bytes}
    (hi : (twoFrames s)[i]? = some (text, frameAt s i)) (hj : (twoFrames s)[j]? = some (text', frameAt s j))
    (hw : InWindow s.send.seq 0 i r) (hw' : InWindow s.send.seq (i + 1) j (feedFrame r (frameAt s i)).session) :
    DeliveryRun crypto (WrapOrdered s.send.seq) s.send.seq (twoFrames s) 0 r (twoFed s r i j)
      (feedFrame (feedFrame r (frameAt s i)).session (frameAt s j)).session := by
  have hmax : max 0 (i + 1) = i + 1 := Nat.max_eq_right (Nat.zero_le _)
  exact deliveryRun_feedFrame hi hw (deliveryRun_feedFrame hj (hmax ▸ hw') (.done _ _))

theorem outOfOrder_recovery_swapped :
    (∀ x ∈ twoFed alice bob 1 0, ∃ text f, (twoFrames alice)[x.index]? = some (text, f) ∧ x.ret = .ok text) ∧
    (∀ x ∈ twoFed aliceLast bobLast 0 1,
      ∃ text f, (twoFrames aliceLast)[x.index]? = some (text, f) ∧ x.ret = .ok text) := by
  have hb : PlainBatch crypto alice (twoFrames alice) :=
    twoFrames_plain (by decide +kernel) (by decide +kernel)
  have hb' : PlainBatch crypto aliceLast (twoFrames aliceLast) :=
    twoFrames_plain (by decide +kernel) (by decide +kernel)
  have hf : alice.send.seq < 2 ^ 32 ∧ bob.active = true ∧ bob.recv.chain = alice.send.chain ∧
      bob.recv.seq = alice.send.seq ∧ InWindow alice.send.seq 0 1 bob ∧
      InWindow alice.send.seq 2 0 (feedFrame bob (frameAt alice 1)).session := by decide +kernel
  have hf' : aliceLast.send.seq < 2 ^ 32 ∧ bobLast.active = true ∧
      bobLast.recv.chain = aliceLast.send.chain ∧ bobLast.recv.seq = aliceLast.send.seq ∧
      InWindow aliceLast.send.seq 0 0 bobLast ∧
      InWindow aliceLast.send.seq 1 1 (feedFrame bobLast (frameAt aliceLast 0)).session := by decide +kernel
  obtain ⟨hs, ha, hc, hq, hw, hw'⟩ := hf
  have hswapped := (outOfOrder_recovery aeadCorrect hb hs ha hc hq (twoFed_run rfl rfl hw hw') (by decide)).2.1
  obtain ⟨hs, ha, hc, hq, hw, hw'⟩ := hf'
  have hturn := (outOfOrder_recovery aeadCorrect hb' hs ha hc hq (twoFed_run rfl rfl hw hw') (by decide)).2.1
  exact ⟨fun x hx => (hswapped x hx).2, fun x hx => (hturn x hx).2⟩

-- The frame after the wrap is one ahead, but its seq counts as passed.
theorem swapped_at_wrap_replay :
    PlainBatch crypto aliceLast (twoFrames aliceLast) ∧ bobLast.active = true ∧
      bobLast.recv.chain = aliceLast.send.chain ∧ bobLast.recv.seq = aliceLast.send.seq ∧
      bobLast.recv.skipped = [] ∧
      DeliveryRun crypto (fun _ _ _ => True) aliceLast.send.seq (twoFrames aliceLast) 0 bobLast
        [⟨1, .error .replay, .error .replay⟩] (feedFrame bobLast (frameAt aliceLast 1)).session := by
  have hb : PlainBatch crypto aliceLast (twoFrames aliceLast) :=
    twoFrames_plain (by decide +kernel) (by decide +kernel)
  have hf : bobLast.active = true ∧ bobLast.recv.chain = aliceLast.send.chain ∧
      bobLast.recv.skipped = [] ∧ (feedFrame bobLast (frameAt aliceLast 1)).ret = .error .replay ∧
      (recvKey crypto bobLast.recv (seqAt aliceLast.send.seq 1)).map Prod.fst = .error .replay := by
    decide +kernel
  obtain ⟨ha, hc, hk, hret, hkey⟩ := hf
  refine ⟨hb, ha, hc, rfl, hk, ?_⟩
  have hrun : DeliveryRun crypto (fun _ _ _ => True) aliceLast.send.seq (twoFrames aliceLast) 0 bobLast
      [fedFrame aliceLast.send.seq 1 bobLast (frameAt aliceLast 1)]
      (feedFrame bobLast (frameAt aliceLast 1)).session := by
    have hsecond : (twoFrames aliceLast)[1]? = some ([2], frameAt aliceLast 1) := rfl
    refine .feed bobEnv (draws 8) hsecond (by decide) ?_ trivial (.done _ _)
    rw [hk]
    decide
  rw [fedFrame, hret, hkey] at hrun
  exact hrun

end Instance

end TkTox
