import TkTox.RelTransport

/-!
What one side of the reliable transport maintains: the texts behind its sent buffer, the tags
of its frames, and that every seq it has moved past was opened or has its key in the ring.
-/

namespace TkTox

variable {C : Crypto} {s s' : TTSession} {net : List RelFrame} {log log' : List Tagged}
  {roots : List Key} {root : Key} {r r' : TTRatchet} {ρ : Draws}

def Covered (root : Key) (r : TTRatchet) (log : List Tagged) : Prop :=
  ∀ n, 1 ≤ n → n < r.seq → (∃ text, ⟨root, n, text⟩ ∈ log) ∨ n ∈ r.skipped.map Prod.fst

namespace Covered

theorem mono (h : Covered root r log) (hl : ∀ t ∈ log, t ∈ log') : Covered root r log' := by
  intro n h1 hn
  rcases h n h1 hn with ⟨text, ht⟩ | hr
  · exact Or.inl ⟨text, hl _ ht⟩
  · exact Or.inr hr

theorem reset (b : Bool) : Covered root (ratchetReset C root b) log := by
  intro n h1 hn
  have : n < 1 := hn
  omega

theorem seqNext_le (n : ℕ) : seqNext n ≤ n + 1 := Nat.mod_le _ _

theorem skipOne (h : Covered root r log) (hr : r.skipped.length < ttSessionSkippedMax) :
    Covered root (recvSkipOne C r) log ∧
      (recvSkipOne C r).skipped.length = r.skipped.length + 1 := by
  have hring : (recvSkipOne C r).skipped = r.skipped ++ [(r.seq, (chainMaterial C r.chain).1)] := by
    simp only [recvSkipOne, skippedAdd, if_neg (not_le.mpr hr)]
  refine ⟨fun n h1 hn => ?_, by rw [hring]; simp⟩
  have hle : n < r.seq ∨ n = r.seq := by
    have := seqNext_le r.seq
    have hn' : n < seqNext r.seq := hn
    omega
  rw [hring, List.map_append]
  rcases hle with hlt | rfl
  · rcases h n h1 hlt with ht | hm
    · exact Or.inl ht
    · exact Or.inr (List.mem_append_left _ hm)
  · exact Or.inr (List.mem_append_right _ (by simp))

theorem skip (h : Covered root r log) (k : ℕ)
    (hr : r.skipped.length + k ≤ ttSessionSkippedMax) :
    Covered root ((recvSkipOne C)^[k] r) log ∧
      ((recvSkipOne C)^[k] r).skipped.length = r.skipped.length + k := by
  induction k with
  | zero => exact ⟨h, rfl⟩
  | succ k ih =>
    obtain ⟨hc, hl⟩ := ih (by omega)
    rw [Function.iterate_succ_apply']
    obtain ⟨hc', hl'⟩ := hc.skipOne (C := C) (by omega)
    exact ⟨hc', by omega⟩

theorem skip_seq (k : ℕ) (hr : r.seq + k < 2 ^ 32) :
    ((recvSkipOne C)^[k] r).seq = r.seq + k := by
  induction k with
  | zero => rfl
  | succ k ih =>
    rw [Function.iterate_succ_apply']
    change seqNext ((recvSkipOne C)^[k] r).seq = r.seq + (k + 1)
    rw [ih (by omega), seqNext, Nat.mod_eq_of_lt (by omega), Nat.add_assoc]

theorem commit (h : Covered root r log) {seq : ℕ} (hs : r.seq ≤ seq) (hlt : seq < 2 ^ 32)
    (hr : r.skipped.length + (seq - r.seq) ≤ ttSessionSkippedMax) (text : Bytes) :
    Covered root (recvCommit C r seq) (⟨root, seq, text⟩ :: log) ∧
      (recvCommit C r seq).skipped.length ≤ ttSessionSkippedMax := by
  obtain ⟨hc, hl⟩ := h.skip (C := C) (seq - r.seq) hr
  have hseq : ((recvSkipOne C)^[seq - r.seq] r).seq = seq := by
    rw [skip_seq _ (by omega)]
    omega
  refine ⟨fun n h1 hn => ?_, ?_⟩
  · have hle : n < seq ∨ n = seq := by
      have hle := seqNext_le ((recvSkipOne C)^[seq - r.seq] r).seq
      have hn' : n < seqNext ((recvSkipOne C)^[seq - r.seq] r).seq := hn
      omega
    rcases hle with hlt | rfl
    · rcases hc n h1 (by omega) with ⟨t, ht⟩ | hm
      · exact Or.inl ⟨t, List.mem_cons_of_mem _ ht⟩
      · exact Or.inr hm
    · exact Or.inl ⟨text, List.mem_cons_self⟩
  · change ((recvSkipOne C)^[seq - r.seq] r).skipped.length ≤ _
    omega

theorem skippedTake_spec {seq : ℕ} {key : Key} (ht : skippedTake r seq = some (key, r')) :
    seq ∈ r.skipped.map Prod.fst ∧ r'.seq = r.seq ∧
      r'.skipped.length + 1 = r.skipped.length ∧
      (∀ n ∈ r.skipped.map Prod.fst, n = seq ∨ n ∈ r'.skipped.map Prod.fst) ∧
      ∀ e ∈ r'.skipped, e ∈ r.skipped := by
  obtain ⟨e, he, hr⟩ := Option.map_eq_some_iff.mp ht
  cases hr
  have hmem := List.mem_of_find?_eq_some he
  have heq : (e.1 == seq) = true := List.find?_some (p := fun e : ℕ × Key => e.1 == seq) he
  refine ⟨List.mem_map.mpr ⟨e, hmem, by simpa using heq⟩, rfl, ?_, ?_, ?_⟩
  · rw [List.length_eraseP_of_mem hmem heq]
    have := List.length_pos_of_mem hmem
    omega
  · intro n hn
    obtain ⟨x, hx, rfl⟩ := List.mem_map.mp hn
    by_cases hxs : x.1 = seq
    · exact Or.inl hxs
    · refine Or.inr (List.mem_map_of_mem ?_)
      exact (List.mem_eraseP_of_neg (by simpa using hxs)).mpr hx
  · exact fun x hx => List.mem_of_mem_eraseP hx

theorem take (h : Covered root r log) {seq : ℕ} {key : Key}
    (ht : skippedTake r seq = some (key, r')) (text : Bytes) :
    Covered root r' (⟨root, seq, text⟩ :: log) := by
  obtain ⟨-, hseq, -, hkeep, -⟩ := skippedTake_spec ht
  intro n h1 hn
  rw [hseq] at hn
  rcases h n h1 hn with ⟨t, hm⟩ | hm
  · exact Or.inl ⟨t, List.mem_cons_of_mem _ hm⟩
  · rcases hkeep n hm with rfl | hm
    · exact Or.inl ⟨text, List.mem_cons_self⟩
    · exact Or.inr hm

theorem restore (h : Covered root r log) {seq : ℕ} {key : Key}
    (ht : skippedTake r seq = some (key, r')) (hr : r.skipped.length ≤ ttSessionSkippedMax) :
    Covered root (skippedAdd r' seq key) log ∧
      (skippedAdd r' seq key).skipped.length ≤ ttSessionSkippedMax := by
  obtain ⟨-, hseq, hlen, hkeep, -⟩ := skippedTake_spec ht
  have hring : (skippedAdd r' seq key).skipped = r'.skipped ++ [(seq, key)] := by
    simp only [skippedAdd]
    rw [if_neg (by omega)]
  refine ⟨fun n h1 hn => ?_, by rw [hring]; simp only [List.length_append, List.length_singleton]; omega⟩
  have hn' : n < r.seq := by
    rw [← hseq]
    exact hn
  rw [hring, List.map_append]
  rcases h n h1 hn' with hm | hm
  · exact Or.inl hm
  · rcases hkeep n hm with rfl | hm
    · exact Or.inr (List.mem_append_right _ (by simp))
    · exact Or.inr (List.mem_append_left _ hm)

theorem fold (h : Covered root r log) (hr : ∀ n ∈ r.skipped.map Prod.fst,
    ∃ text, ⟨root, n, text⟩ ∈ log) (dh kem : Key) : Covered root (ratchetFold C r dh kem) log := by
  intro n h1 hn
  rcases h n h1 hn with hm | hm
  · exact Or.inl hm
  · exact Or.inl (hr n hm)

end Covered

def RelFrame.WellFormed (C : Crypto) : RelFrame → Prop
  | .handshake f => ∀ d, ttFramePeek f = some d → d.type = some .init ∨ d.type = some .reply
  | .data f key t => ∃ flags nonce hdr,
      ttFrameEncode C ttFrameMax .data t.seq flags key nonce hdr t.text = some f
  | .control f type root a b => (type = .ack ∨ type = .resend) ∧ (f = [] ∨ ∃ nonce,
      ttFrameEncode C ttFrameMax type 0 0 (controlKey C root) nonce [] (u32be a ++ u32be b) = some f)

theorem ttFrameDecode_encode_eq (hC : C.AeadCorrect) {cap ptCap : ℕ} {t : TTFrameType} {seq : ℕ}
    {flags : UInt8} {key : Key} {nonce : Nonce} {hdr pt f : Bytes} {d : TTFrameDesc × Bytes}
    (hs : seq < 2 ^ 32) (h : ttFrameEncode C cap t seq flags key nonce hdr pt = some f)
    (hd : ttFrameDecode C f key ptCap = some d) : d.2 = pt := by
  have hle : pt.length ≤ ptCap := by
    by_contra hlt
    rw [ttFrameDecode_of_peek (ttFramePeek_encode hs h)] at hd
    have hgt : pt.length > ptCap := not_le.mp hlt
    simp only [if_pos hgt, ite_self] at hd
    cases hd
  rw [ttFrameDecode_encode hC _ hs h hle] at hd
  cases hd
  rfl

theorem tagsOf_append (net : List RelFrame) (m : RelFrame) :
    tagsOf (net ++ [m]) = tagsOf net ++ m.tag.toList := by
  simp only [tagsOf, List.filterMap_append]
  cases h : m.tag <;> simp [h]

structure TransportInv (C : Crypto) (s : TTSession) (net : List RelFrame) (log : List Tagged)
    (roots : List Key) : Prop where
  reliable : s.lossy = false
  ring : s.recv.skipped.length ≤ ttSessionSkippedMax
  count : s.rel.sent.count ≤ ttSentMax
  mark : s.rel.recvAcked < 2 ^ 32
  cache : RelFrame.WellFormed C (.handshake s.replyCache)
  buffered : ∀ e ∈ s.rel.sent.entries, ∃ t ∈ tagsOf net, relGen C t.root = e.gen ∧ t.seq = e.seq
  tag : ∀ t ∈ tagsOf net, t.root ∈ roots ∧ 1 ≤ t.seq ∧ t.seq < 2 ^ 32
  unique : ∀ t ∈ tagsOf net, ∀ t' ∈ tagsOf net, t.root = t'.root → t.seq = t'.seq → t = t'
  live : s.active = true → s.root ∈ roots ∧ 1 ≤ s.send.seq ∧
    ∀ t ∈ tagsOf net, t.root = s.root → t.seq < s.send.seq
  covered : s.active = true → Covered s.root s.recv log
  frames : ∀ m ∈ net, m.WellFormed C
  acks : ∀ f root a g, .control f .ack root a g ∈ net → root ∈ roots ∧ g = relGen C root ∧
    a < 2 ^ 32 ∧ ∀ n, 1 ≤ n → n ≤ a → ∃ text, ⟨root, n, text⟩ ∈ log

structure Quiet (s s' : TTSession) : Prop where
  lossy : s'.lossy = s.lossy
  sent : s'.rel.sent = s.rel.sent
  mark : s'.rel.recvAcked = s.rel.recvAcked
  cache : s'.replyCache = s.replyCache ∨ s'.replyCache = []
  live : (s'.active = false ∧ s'.recv.skipped = []) ∨
    (s'.active = s.active ∧ s'.root = s.root ∧ s'.send = s.send ∧ s'.recv = s.recv)

namespace TransportInv

theorem fresh : TransportInv C .zero [] [] [] where
  reliable := rfl
  ring := by decide
  count := by decide
  mark := by decide
  cache d hd := by cases hd
  buffered e he := by cases he
  tag t ht := by cases ht
  unique t ht := by cases ht
  live ha := by cases ha
  covered ha := by cases ha
  frames m hm := by cases hm
  acks f root a g hm := by cases hm

theorem quiet (h : TransportInv C s net log roots) (hq : Quiet s s') : TransportInv C s' net log roots := by
  obtain ⟨h1, h2, h3, h4, h5⟩ := hq
  constructor
  case reliable => rw [h1]; exact h.reliable
  case ring =>
    rcases h5 with ⟨-, h5⟩ | ⟨-, -, -, h5⟩ <;> rw [h5]
    · exact Nat.zero_le _
    · exact h.ring
  case count => rw [h2]; exact h.count
  case mark => rw [h3]; exact h.mark
  case cache =>
    rcases h4 with h4 | h4 <;> rw [h4]
    · exact h.cache
    · intro d hd
      cases hd
  case buffered => rw [h2]; exact h.buffered
  case tag => exact h.tag
  case unique => exact h.unique
  case live =>
    intro ha
    rcases h5 with ⟨h5, -⟩ | ⟨h5, h6, h7, -⟩
    · rw [h5] at ha
      cases ha
    · rw [h6, h7]
      exact h.live (h5 ▸ ha)
  case covered =>
    intro ha
    rcases h5 with ⟨h5, -⟩ | ⟨h5, h6, -, h8⟩
    · rw [h5] at ha
      cases ha
    · rw [h6, h8]
      exact h.covered (h5 ▸ ha)
  case frames => exact h.frames
  case acks => exact h.acks

theorem push (h : TransportInv C s net log roots) {m : RelFrame} (hw : m.WellFormed C)
    (ht : m.tag = none) (hack : ∀ f root a g, m = .control f .ack root a g →
      root ∈ roots ∧ g = relGen C root ∧ a < 2 ^ 32 ∧
        ∀ n, 1 ≤ n → n ≤ a → ∃ text, ⟨root, n, text⟩ ∈ log) :
    TransportInv C s (net ++ [m]) log roots := by
  have htags : tagsOf (net ++ [m]) = tagsOf net := by
    rw [tagsOf_append, ht]
    exact List.append_nil _
  constructor
  case reliable => exact h.reliable
  case ring => exact h.ring
  case count => exact h.count
  case mark => exact h.mark
  case cache => exact h.cache
  case buffered => rw [htags]; exact h.buffered
  case tag => rw [htags]; exact h.tag
  case unique => rw [htags]; exact h.unique
  case live => rw [htags]; exact h.live
  case covered => exact h.covered
  case frames =>
    intro n hn
    rcases List.mem_append.mp hn with hn | hn
    · exact h.frames n hn
    · rw [List.mem_singleton.mp hn]
      exact hw
  case acks =>
    intro f root a g hm
    rcases List.mem_append.mp hm with hm | hm
    · exact h.acks f root a g hm
    · exact hack f root a g (List.mem_singleton.mp hm).symm

theorem compact (h : TransportInv C s net log roots) (evict : TTSentMsg → Bool) :
    TransportInv C { s with rel := { s.rel with sent := relCompact evict s.rel.sent } } net log roots := by
  obtain ⟨he, hc⟩ := relCompact_entries h.count evict
  refine { h with count := hc.trans h.count, buffered := fun e hm => ?_ }
  rw [he] at hm
  exact h.buffered e (List.mem_of_mem_filter hm)

theorem drawn (h : TransportInv C s net log roots) (hs : s.send.seq + 1 < 2 ^ 32) (b : Bool)
    (ρ : Draws) : TransportInv C (emitDrawn C s b ρ) net log roots := by
  refine { h with live := fun ha => ?_ }
  obtain ⟨h1, h2, h3⟩ := h.live ha
  have hseq : (emitDrawn C s b ρ).send.seq = s.send.seq + 1 := Nat.mod_eq_of_lt hs
  rw [hseq]
  exact ⟨h1, by omega, fun t ht hr => (h3 t ht hr).trans (Nat.lt_succ_self _)⟩

theorem emit (h : TransportInv C s net log roots) (ha : s.active = true)
    (hs : s.send.seq + 1 < 2 ^ 32) {text : TTSentBuf → Bytes} {f : Bytes}
    (hf : emitEncode C s text ttFrameMax false ρ = some f) :
    TransportInv C (emitDone C s text false ρ f)
      (net ++ [dataFrame C s (text s.rel.sent) f]) log roots := by
  obtain ⟨hroot, hpos, hlt⟩ := h.live ha
  have htags : tagsOf (net ++ [dataFrame C s (text s.rel.sent) f]) =
      tagsOf net ++ [⟨s.root, s.send.seq, text s.rel.sent⟩] := tagsOf_append _ _
  have hmem {t : Tagged} (ht : t ∈ tagsOf (net ++ [dataFrame C s (text s.rel.sent) f])) :
      t ∈ tagsOf net ∨ t = ⟨s.root, s.send.seq, text s.rel.sent⟩ := by
    rw [htags] at ht
    rcases List.mem_append.mp ht with ht | ht
    · exact Or.inl ht
    · exact Or.inr (List.mem_singleton.mp ht)
  have hin : ⟨s.root, s.send.seq, text s.rel.sent⟩ ∈
      tagsOf (net ++ [dataFrame C s (text s.rel.sent) f]) := by
    rw [htags]
    exact List.mem_append_right _ List.mem_cons_self
  have hold {t : Tagged} (ht : t ∈ tagsOf net) :
      t ∈ tagsOf (net ++ [dataFrame C s (text s.rel.sent) f]) := by
    rw [htags]
    exact List.mem_append_left _ ht
  have hdone := emitDone_reliable (C := C) h.reliable text ρ f
  have hsame : (emitDone C s text false ρ f).lossy = s.lossy ∧
      (emitDone C s text false ρ f).recv = s.recv ∧
      (emitDone C s text false ρ f).active = s.active ∧
      (emitDone C s text false ρ f).root = s.root ∧
      (emitDone C s text false ρ f).replyCache = s.replyCache ∧
      (emitDone C s text false ρ f).send.seq = seqNext s.send.seq ∧
      (emitDone C s text false ρ f).rel = { s.rel with
        sent := relSentAdd s.rel.sent (relGen C s.root) s.send.seq text } := by
    rw [hdone]
    cases (emitHdr C s false ρ).fold <;> exact ⟨rfl, rfl, rfl, rfl, rfl, rfl, rfl⟩
  obtain ⟨h1, h2, h3, h4, h5, h6, h7⟩ := hsame
  obtain ⟨hent, hcount⟩ := relSentAdd_entries h.count (relGen C s.root) s.send.seq text
  constructor
  case reliable => rw [h1]; exact h.reliable
  case ring => rw [h2]; exact h.ring
  case count => rw [h7]; exact hcount
  case mark => rw [h7]; exact h.mark
  case cache => rw [h5]; exact h.cache
  case buffered =>
    intro e he
    rw [h7] at he
    rw [hent] at he
    rcases List.mem_append.mp he with he | he
    · have he' : e ∈ s.rel.sent.entries := by
        split_ifs at he
        · exact List.mem_of_mem_tail he
        · exact he
      obtain ⟨t, ht, hg⟩ := h.buffered e he'
      exact ⟨t, hold ht, hg⟩
    · rw [List.mem_singleton.mp he]
      exact ⟨_, hin, rfl, rfl⟩
  case tag =>
    intro t ht
    rcases hmem ht with ht | rfl
    · exact h.tag t ht
    · exact ⟨hroot, hpos, by dsimp only; omega⟩
  case unique =>
    intro t ht t' ht' hr hq
    rcases hmem ht with ht | rfl <;> rcases hmem ht' with ht' | rfl
    · exact h.unique t ht t' ht' hr hq
    · have := hlt t ht hr
      dsimp only at hq
      omega
    · have := hlt t' ht' hr.symm
      dsimp only at hq
      omega
    · rfl
  case live =>
    intro _
    rw [h4, h6, seqNext, Nat.mod_eq_of_lt hs]
    refine ⟨hroot, by omega, fun t ht hr => ?_⟩
    rcases hmem ht with ht | rfl
    · exact (hlt t ht hr).trans (Nat.lt_succ_self _)
    · exact Nat.lt_succ_self _
  case covered =>
    intro _
    rw [h2, h4]
    exact h.covered ha
  case frames =>
    intro m hm
    rcases List.mem_append.mp hm with hm | hm
    · exact h.frames m hm
    · rw [List.mem_singleton.mp hm]
      exact ⟨_, _, _, hf⟩
  case acks =>
    intro f' root a g hm
    rcases List.mem_append.mp hm with hm | hm
    · exact h.acks f' root a g hm
    · cases List.mem_singleton.mp hm

theorem emitFrame (h : TransportInv C s net log roots) (ha : s.active = true)
    (hs : s.send.seq + 1 < 2 ^ 32) (text : TTSentBuf → Bytes) (ρ : Draws) :
    TransportInv C (emitFrame C s text ttFrameMax false ρ).1
      (net ++ dataOut C s (text s.rel.sent) (emitFrame C s text ttFrameMax false ρ).2) log roots := by
  rcases emitFrame_cases C s text ttFrameMax false ρ with ⟨hl, -, -⟩ | ⟨-, -, he⟩ | ⟨-, f, hf, he⟩
  · rw [h.reliable] at hl
    cases hl
  · rw [he, append_dataOut_empty _ _ _ rfl]
    exact h.drawn hs false ρ
  · rw [he, dataOut_ok _ _ (emitEncode_length_le hf).2.2]
    exact h.emit ha hs hf

theorem resend (n : ℕ) (h : TransportInv C s net log roots) (ha : s.active = true)
    (hs : s.send.seq + n < 2 ^ 32) (ρ : ℕ → Draws) (r : ℕ) :
    TransportInv C (relResend C ttFrameMax ρ n r s).1
      (net ++ resendOut C ttFrameMax ρ n r s) log roots := by
  induction n generalizing s r with
  | zero =>
    simp only [relResend, resendOut, List.append_nil]
    exact { h with }
  | succ n ih =>
    unfold relResend resendOut
    dsimp only
    split_ifs with hskip
    · exact ih h ha (by omega) (r + 1)
    · have he := h.emitFrame ha (by omega) (TTSentBuf.readSlot (sentIdx (s.rel.sent.head + r))
        (s.rel.sent.m (sentIdx (s.rel.sent.head + r))).data.length) (ρ r)
      rcases emitFrame_cases C s (TTSentBuf.readSlot (sentIdx (s.rel.sent.head + r))
        (s.rel.sent.m (sentIdx (s.rel.sent.head + r))).data.length) ttFrameMax false (ρ r) with
        ⟨hl, -, -⟩ | ⟨-, -, hf⟩ | ⟨-, f, hf, hok⟩
      · rw [h.reliable] at hl
        cases hl
      · rw [hf, append_dataOut_empty _ _ _ rfl] at he
        rw [hf]
        dsimp only at he ⊢
        have hseq : (emitDrawn C s false (ρ r)).send.seq = s.send.seq + 1 :=
          Nat.mod_eq_of_lt (by omega)
        exact ih he ha (by omega) (r + 1)
      · have hne := (emitEncode_length_le hf).2.2
        rw [hok, dataOut_ok _ _ hne] at he
        rw [hok]
        obtain ⟨b, f', rfl⟩ := List.exists_cons_of_ne_nil hne
        exact he.compact _

theorem controlFrame_wellFormed (s : TTSession) {type : TTFrameType}
    (ht : type = .ack ∨ type = .resend) (a b : ℕ) (ρ : Draws) :
    RelFrame.WellFormed C (.control (controlFrame C s type a b ttFrameMax ρ) type s.root a b) := by
  refine ⟨ht, ?_⟩
  unfold controlFrame
  cases h : ttFrameEncode C ttFrameMax type 0 0 (controlKey C s.root) ρ.nonce []
    (u32be a ++ u32be b) with
  | none => exact Or.inl rfl
  | some f => exact Or.inr ⟨ρ.nonce, h⟩

theorem relPoll (h : TransportInv C s net log roots) (hs : s.send.seq + ttSentMax < 2 ^ 32)
    (hack : AcksNext s → s.recv.skipped = [] ∧ s.rel.recvAcked < s.recv.seq) (ρ : ℕ → Draws) :
    TransportInv C (ttSessionRelPoll C s ttFrameMax ρ).1 (net ++ pollOut C s ttFrameMax ρ) log
      roots := by
  by_cases ha : s.active = false
  · have h1 : ttSessionRelPoll C s ttFrameMax ρ = (s, []) := if_pos ha
    have h2 : pollOut C s ttFrameMax ρ = [] := if_pos ha
    rw [h1, h2, List.append_nil]
    exact h
  have hact : s.active = true := by simpa using ha
  cases hreq : s.rel.resendReqPending with
  | true =>
    have hpoll : ttSessionRelPoll C s ttFrameMax ρ =
        ({ s with rel := { s.rel with resendReqPending := false } },
          controlFrame C s .resend s.rel.resendReqGen s.rel.resendReqFrom ttFrameMax (ρ 0)) := by
      rw [ttSessionRelPoll, if_neg ha, if_pos hreq]
    have hout : pollOut C s ttFrameMax ρ = [.control (controlFrame C s .resend s.rel.resendReqGen
        s.rel.resendReqFrom ttFrameMax (ρ 0)) .resend s.root s.rel.resendReqGen
          s.rel.resendReqFrom] := by
      rw [pollOut, if_neg ha, if_pos hreq, hpoll]
    rw [hpoll, hout]
    exact (h.push (controlFrame_wellFormed s (Or.inr rfl) _ _ _) rfl (by simp)).quiet
      ⟨rfl, rfl, rfl, Or.inl rfl, Or.inr ⟨rfl, rfl, rfl, rfl⟩⟩
  | false =>
    have hreq' : ¬ s.rel.resendReqPending = true := by simp [hreq]
    cases hrep : s.rel.resendRepPending with
    | true =>
      have hpoll : ttSessionRelPoll C s ttFrameMax ρ =
          relResend C ttFrameMax ρ s.rel.sent.count 0 s := by
        rw [ttSessionRelPoll, if_neg ha, if_neg hreq', if_pos hrep]
      have hout : pollOut C s ttFrameMax ρ = resendOut C ttFrameMax ρ s.rel.sent.count 0 s := by
        rw [pollOut, if_neg ha, if_neg hreq', if_pos hrep]
      rw [hpoll, hout]
      have hc := h.count
      exact h.resend _ hact (by omega) ρ 0
    | false =>
      have hrep' : ¬ s.rel.resendRepPending = true := by simp [hrep]
      cases hdue : s.rel.ackDue with
      | false =>
        have hdue' : ¬ s.rel.ackDue = true := by simp [hdue]
        have hpoll : ttSessionRelPoll C s ttFrameMax ρ = (s, []) := by
          rw [ttSessionRelPoll, if_neg ha, if_neg hreq', if_neg hrep', if_neg hdue']
        have hout : pollOut C s ttFrameMax ρ = [] := by
          rw [pollOut, if_neg ha, if_neg hreq', if_neg hrep', if_neg hdue']
        rw [hpoll, hout, List.append_nil]
        exact h
      | true =>
        have hpoll : ttSessionRelPoll C s ttFrameMax ρ =
            ({ s with rel := { s.rel with ackDue := false } },
              controlFrame C s .ack s.rel.recvAcked (relGen C s.root) ttFrameMax (ρ 0)) := by
          rw [ttSessionRelPoll, if_neg ha, if_neg hreq', if_neg hrep', if_pos hdue]
        have hout : pollOut C s ttFrameMax ρ = [.control (controlFrame C s .ack s.rel.recvAcked
            (relGen C s.root) ttFrameMax (ρ 0)) .ack s.root s.rel.recvAcked (relGen C s.root)] := by
          rw [pollOut, if_neg ha, if_neg hreq', if_neg hrep', if_pos hdue, hpoll]
        rw [hpoll, hout]
        obtain ⟨hring, hmark⟩ := hack ⟨hact, hreq, hrep, hdue⟩
        refine (h.push (controlFrame_wellFormed s (Or.inl rfl) _ _ _) rfl ?_).quiet
          ⟨rfl, rfl, rfl, Or.inl rfl, Or.inr ⟨rfl, rfl, rfl, rfl⟩⟩
        rintro f root a g hm
        cases hm
        refine ⟨(h.live hact).1, rfl, h.mark, fun n h1 hn => ?_⟩
        rcases h.covered hact n h1 (by omega) with ht | hr
        · exact ht
        · rw [hring] at hr
          cases hr

end TransportInv

end TkTox
