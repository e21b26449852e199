import TkTox.FeedCases
import TkTox.Instance

/-!
At-most-once delivery. The receiver of an established session accepts a seq as the expected
one, ahead of it, or from the skipped-key ring; `RecvInv` says why no seq passes twice.
-/

namespace TkTox

variable {C : Crypto} {s : TTSession} {env : TTE2EEEnv} {ρ : Draws} {input : Bytes}
  {d : TTFrameDesc} {r : TTRatchet} {delivered : List ℕ} {consumed : ℕ}

def deliveredSeq (C : Crypto) (s : TTSession) (env : TTE2EEEnv) (ρ : Draws) (input : Bytes)
    (ptCap : ℕ) : Option ℕ :=
  match ttFramePeek input with
  | none => none
  | some d =>
    match d.type, (ttSessionFeed C s env ρ input ptCap).ret with
    | some .data, .ok _ => some d.seq
    | _, _ => none

def consumedBy (r : TTRatchet) (seq : ℕ) : ℕ := if seq < r.seq then 0 else seq - r.seq + 1

structure Receiver where
  session : TTSession
  delivered : List ℕ
  consumed : ℕ

def receiverStep (C : Crypto) (w : Receiver) (op : SessionOp) : Receiver :=
  match op with
  | .feed env ρ input cap =>
    let s := sessionStep C w.session (.feed env ρ input cap)
    if establishesOn C w.session env ρ input cap then ⟨s, [], 0⟩
    else match deliveredSeq C w.session env ρ input cap with
    | some n => ⟨s, n :: w.delivered, w.consumed + consumedBy w.session.recv n⟩
    | none => ⟨s, w.delivered, w.consumed⟩
  | op => ⟨sessionStep C w.session op, w.delivered, w.consumed⟩

def receiverRun (C : Crypto) (s : TTSession) (ops : List SessionOp) : Receiver :=
  ops.foldl (receiverStep C) ⟨s, [], 0⟩

structure RecvInv (r : TTRatchet) (delivered : List ℕ) (consumed : ℕ) : Prop where
  seq_eq : r.seq = (consumed + 1) % 2 ^ 32
  consumed_lt : consumed < 2 ^ 32
  ring_nodup : (r.skipped.map Prod.fst).Nodup
  ring_le : ∀ e ∈ r.skipped, e.1 ≤ consumed
  ring_fresh : ∀ e ∈ r.skipped, e.1 ∉ delivered
  ring_length : r.skipped.length ≤ ttSessionSkippedMax
  delivered_le : ∀ n ∈ delivered, n ≤ consumed
  delivered_nodup : delivered.Nodup

namespace RecvInv

theorem reset (root : Key) (b : Bool) : RecvInv (ratchetReset C root b) [] 0 := by
  constructor <;> simp [ratchetReset]

theorem fold (h : RecvInv r delivered consumed) (dh kem : Key) :
    RecvInv (ratchetFold C r dh kem) delivered consumed :=
  ⟨h.seq_eq, h.consumed_lt, by simp, by simp, by simp, by simp, h.delivered_le, h.delivered_nodup⟩

theorem seq_of_lt (h : RecvInv r delivered consumed) (hc : consumed + 1 < 2 ^ 32) :
    r.seq = consumed + 1 := by
  rw [h.seq_eq, Nat.mod_eq_of_lt hc]

theorem add (h : RecvInv r delivered consumed) {c : ℕ} (seq next : ℕ) (key chain : Key)
    (hc : consumed ≤ c) (hcl : c < 2 ^ 32) (hn : next = (c + 1) % 2 ^ 32) (hle : seq ≤ c)
    (hring : seq ∉ r.skipped.map Prod.fst) (hdel : seq ∉ delivered) :
    RecvInv { skippedAdd { r with chain := chain } seq key with seq := next } delivered c := by
  have hsub : ∀ e ∈ (if r.skipped.length ≥ ttSessionSkippedMax then r.skipped.drop 1
      else r.skipped), e ∈ r.skipped := by
    intro e he
    split_ifs at he
    · exact List.mem_of_mem_drop he
    · exact he
  have hnod : ((if r.skipped.length ≥ ttSessionSkippedMax then r.skipped.drop 1
      else r.skipped).map Prod.fst).Nodup := by
    split_ifs
    · rw [List.map_drop]
      exact h.ring_nodup.sublist (List.drop_sublist _ _)
    · exact h.ring_nodup
  constructor
  case seq_eq => exact hn
  case consumed_lt => exact hcl
  case ring_nodup =>
    simp only [skippedAdd, List.map_append, List.map_cons, List.map_nil]
    refine List.nodup_append.mpr ⟨hnod, List.nodup_singleton _, ?_⟩
    intro a ha b hb hab
    obtain ⟨e, he, rfl⟩ := List.mem_map.mp ha
    rw [List.mem_singleton.mp hb] at hab
    exact hring (List.mem_map.mpr ⟨e, hsub e he, hab⟩)
  case ring_le =>
    intro e he
    rcases List.mem_append.mp he with he | he
    · exact (h.ring_le e (hsub e he)).trans hc
    · rw [List.mem_singleton.mp he]
      exact hle
  case ring_fresh =>
    intro e he
    rcases List.mem_append.mp he with he | he
    · exact h.ring_fresh e (hsub e he)
    · rw [List.mem_singleton.mp he]
      exact hdel
  case ring_length =>
    have hl := h.ring_length
    simp only [skippedAdd, ttSessionSkippedMax, List.length_append, List.length_cons,
      List.length_nil] at hl ⊢
    split_ifs with hf
    · rw [List.length_drop]
      omega
    · omega
  case delivered_le => exact fun n hn => (h.delivered_le n hn).trans hc
  case delivered_nodup => exact h.delivered_nodup

theorem skipOne (h : RecvInv r delivered consumed) (hc : consumed + 1 < 2 ^ 32) :
    RecvInv (recvSkipOne C r) delivered (consumed + 1) := by
  have hs := h.seq_of_lt hc
  refine h.add r.seq (seqNext r.seq) _ (nextChain C r.chain) (by omega) hc ?_ (by omega) ?_ ?_
  · rw [seqNext, hs]
  · intro hm
    obtain ⟨e, he, heq⟩ := List.mem_map.mp hm
    have := h.ring_le e he
    omega
  · intro hm
    have := h.delivered_le _ hm
    omega

theorem skip (h : RecvInv r delivered consumed) (k : ℕ) (hc : consumed + k < 2 ^ 32) :
    RecvInv ((recvSkipOne C)^[k] r) delivered (consumed + k) := by
  induction k with
  | zero => exact h
  | succ k ih =>
    rw [Function.iterate_succ_apply', ← Nat.add_assoc]
    exact (ih (by omega)).skipOne (by omega)

theorem accept (h : RecvInv r delivered consumed) (hc : consumed + 1 < 2 ^ 32) :
    RecvInv (sendAdvance C r) (r.seq :: delivered) (consumed + 1) := by
  have hs := h.seq_of_lt hc
  constructor
  case seq_eq => rw [sendAdvance_seq, seqNext, hs]
  case consumed_lt => exact hc
  case ring_nodup => exact h.ring_nodup
  case ring_le => exact fun e he => (h.ring_le e he).trans (by omega)
  case ring_fresh =>
    intro e he hm
    rcases List.mem_cons.mp hm with hm | hm
    · have := h.ring_le e he
      omega
    · exact h.ring_fresh e he hm
  case ring_length => exact h.ring_length
  case delivered_le =>
    intro n hn
    rcases List.mem_cons.mp hn with hn | hn
    · omega
    · exact (h.delivered_le n hn).trans (by omega)
  case delivered_nodup =>
    refine List.nodup_cons.mpr ⟨fun hm => ?_, h.delivered_nodup⟩
    have := h.delivered_le _ hm
    omega

theorem commit (h : RecvInv r delivered consumed) {seq : ℕ} (hseq : r.seq ≤ seq)
    (hc : consumed + consumedBy r seq < 2 ^ 32) :
    RecvInv (recvCommit C r seq) (seq :: delivered) (consumed + consumedBy r seq) := by
  have hby : consumedBy r seq = seq - r.seq + 1 := if_neg (by omega)
  rw [hby] at hc ⊢
  have hlt : consumed + 1 < 2 ^ 32 := by omega
  have hs := h.seq_of_lt hlt
  have hk := h.skip (C := C) (seq - r.seq) (by omega)
  have hks := hk.seq_of_lt (by omega)
  have hkseq : ((recvSkipOne C)^[seq - r.seq] r).seq = seq := by omega
  have ha := hk.accept (C := C) (by omega)
  rw [hkseq, Nat.add_assoc] at ha
  exact ha

theorem take (h : RecvInv r delivered consumed) {seq : ℕ} {key : Key} {r' : TTRatchet}
    (ht : skippedTake r seq = some (key, r')) :
    RecvInv r' (seq :: delivered) consumed ∧ seq ∈ r.skipped.map Prod.fst ∧
      seq ∉ r'.skipped.map Prod.fst ∧ r'.skipped.length < r.skipped.length := by
  obtain ⟨e, he, hr⟩ := Option.map_eq_some_iff.mp ht
  cases hr
  have hmem := List.mem_of_find?_eq_some he
  have heq : e.1 = seq := by simpa using List.find?_some he
  have hsub := List.eraseP_sublist (l := r.skipped) (p := fun e => e.1 == seq)
  have hout : seq ∉ (r.skipped.eraseP fun e => e.1 == seq).map Prod.fst := by
    intro hm
    obtain ⟨x, hx, hxs⟩ := List.mem_map.mp hm
    obtain ⟨a, l₁, l₂, hl₁, ha, hl, hl'⟩ := List.exists_of_eraseP hmem (p := fun e => e.1 == seq)
      (by simpa using heq)
    have hn := h.ring_nodup
    rw [hl] at hn
    rw [hl'] at hx
    simp only [List.map_append, List.map_cons] at hn
    have ha' : a.1 = seq := by simpa using ha
    have := (List.nodup_middle.mp hn)
    refine (List.nodup_cons.mp this).1 ?_
    rw [ha', ← hxs, ← List.map_append]
    exact List.mem_map_of_mem hx
  refine ⟨?_, List.mem_map.mpr ⟨e, hmem, heq⟩, hout, ?_⟩
  · constructor
    case seq_eq => exact h.seq_eq
    case consumed_lt => exact h.consumed_lt
    case ring_nodup => exact h.ring_nodup.sublist (hsub.map _)
    case ring_le => exact fun x hx => h.ring_le x (hsub.mem hx)
    case ring_fresh =>
      intro x hx hm
      rcases List.mem_cons.mp hm with hm | hm
      · exact hout (List.mem_map.mpr ⟨x, hx, hm⟩)
      · exact h.ring_fresh x (hsub.mem hx) hm
    case ring_length => exact hsub.length_le.trans h.ring_length
    case delivered_le =>
      intro n hn
      rcases List.mem_cons.mp hn with hn | hn
      · rw [hn, ← heq]
        exact h.ring_le e hmem
      · exact h.delivered_le n hn
    case delivered_nodup =>
      refine List.nodup_cons.mpr ⟨?_, h.delivered_nodup⟩
      rw [← heq]
      exact h.ring_fresh e hmem
  · rw [List.length_eraseP_of_mem hmem (by simpa using heq)]
    have := List.length_pos_of_mem hmem
    omega

theorem mono (h : RecvInv r delivered consumed) {l : List ℕ} (hl : l.Sublist delivered) :
    RecvInv r l consumed :=
  ⟨h.seq_eq, h.consumed_lt, h.ring_nodup, h.ring_le, fun e he hm => h.ring_fresh e he (hl.mem hm),
    h.ring_length, fun n hn => h.delivered_le n (hl.mem hn), h.delivered_nodup.sublist hl⟩

theorem restore (h : RecvInv r delivered consumed) {seq : ℕ} {key : Key} {r' : TTRatchet}
    (ht : skippedTake r seq = some (key, r')) :
    RecvInv (skippedAdd r' seq key) delivered consumed := by
  obtain ⟨hinv, hin, hout, -⟩ := h.take ht
  obtain ⟨e, he, heq⟩ := List.mem_map.mp hin
  have hle := h.ring_le e he
  have hd := (List.nodup_cons.mp hinv.delivered_nodup).1
  exact (hinv.mono (List.sublist_cons_self _ _)).add seq r'.seq key r'.chain le_rfl h.consumed_lt
    hinv.seq_eq (by omega) hout hd

end RecvInv

/-! ### What a feed does to the receiving side -/

def HandshakeEffect (C : Crypto) (s : TTSession) (fresh : Bool) (s' : TTSession) : Prop :=
  if fresh then ∃ root b, s'.recv = ratchetReset C root b
  else s'.active = false ∨ SameReceiver s s'

variable (C s env ρ) in
theorem acceptInit_effect (peerPk : Key) (hp : ttFramePeek input = some d) :
    HandshakeEffect C s (acceptInit C s env peerPk ρ input d).handshaked
      (acceptInit C s env peerPk ρ input d).session := by
  rcases acceptInit_cases C s env ρ peerPk hp with
    ⟨-, e, h⟩ | ⟨-, -, key, h⟩ | ⟨-, key, f, -, h⟩
  · rw [h]
    exact Or.inr (.refl s)
  · rw [h]
    exact Or.inr ⟨rfl, rfl⟩
  · rw [h]
    exact ⟨_, _, rfl⟩

theorem feedInit_effect (hp : ttFramePeek input = some d) (ht : d.type = some .init) :
    HandshakeEffect C s ((feedInit C s env ρ input d).handshaked && !initRetransmit C s env input)
      (feedInit C s env ρ input d).session := by
  have hret : initRetransmit C s env input =
      (s.active && !s.iAmInitiator && initOpens C env input d) := by
    simp [initRetransmit, hp, ht]
  by_cases hr : initReachesOpen C s env input d
  · rw [hret, hr.2.2.2, Bool.not_false, Bool.and_true, feedInit_reaches hr]
    split_ifs
    · have h := acceptInit_effect C (reestablishPreserve s) env ρ (hdrIk d.hdr) hp
      unfold HandshakeEffect at h ⊢
      split_ifs at h ⊢
      · exact h
      · exact Or.inl (h.elim id fun h => h.1)
    · exact Or.inr (.refl s)
    · exact acceptInit_effect C s env ρ _ hp
  · obtain ⟨hs, hh⟩ := feedInit_early (ρ := ρ) ht hr
    have hfresh : ((feedInit C s env ρ input d).handshaked &&
        !initRetransmit C s env input) = false := by
      rw [Bool.and_eq_false_iff, hret]
      by_cases h : (feedInit C s env ρ input d).handshaked = true
      · obtain ⟨h1, h2, h3⟩ := hh h
        simp [h1, h2, h3]
      · exact Or.inl (by simpa using h)
    rw [hfresh, hs]
    exact Or.inr (.refl s)

theorem feedReply_effect (hp : ttFramePeek input = some d) :
    HandshakeEffect C s (feedReply C s env ρ input d).handshaked
      (feedReply C s env ρ input d).session := by
  rcases feedReply_cases C s env ρ hp with
    ⟨r, h⟩ | ⟨-, -, -, -, f, -, h⟩
  · rw [h]
    exact Or.inr (.refl s)
  · rw [h]
    exact ⟨_, _, rfl⟩

theorem feedControl_sameReceiver (type : TTFrameType) :
    SameReceiver s (feedControl C s type input d).session ∧
      (feedControl C s type input d).handshaked = false := by
  rcases feedControl_cases C s input d type with
    ⟨r, h⟩ | ⟨-, -, -, d', payload, -, -, h⟩ <;>
  · rw [h]
    exact ⟨⟨rfl, rfl⟩, rfl⟩

theorem ackMark_sameReceiver : SameReceiver s (ackMark s) := by
  simp only [ackMark]
  split_ifs <;> exact ⟨rfl, rfl⟩

theorem applyHdr_recv (hdr : Bytes) : (applyHdr C s hdr ρ).active = s.active ∧
    ((applyHdr C s hdr ρ).recv = s.recv ∨
      ∃ dh kem, (applyHdr C s hdr ρ).recv = ratchetFold C s.recv dh kem) := by
  unfold applyHdr applyRekey applyKempub
  split_ifs
  · dsimp only
    split
    · exact ⟨rfl, Or.inl rfl⟩
    · exact ⟨rfl, Or.inr ⟨_, _, rfl⟩⟩
  · split <;> exact ⟨rfl, Or.inl rfl⟩
  · exact ⟨rfl, Or.inl rfl⟩

theorem dataReject_recv (seq : ℕ) (key : Key) (taken : Option TTRatchet) :
    (dataReject C s seq key taken).active = s.active ∧
    (dataReject C s seq key taken).recv = taken.elim s.recv fun r => skippedAdd r seq key := by
  unfold dataReject
  cases taken <;> dsimp only <;> split_ifs <;> exact ⟨rfl, rfl⟩

theorem RecvInv.acceptedData (h : RecvInv s.recv delivered consumed) {key : Key}
    {taken : Option TTRatchet} (hk : recvKey C s.recv d.seq = .ok (key, taken))
    (hc : consumed + consumedBy s.recv d.seq < 2 ^ 32) :
    RecvInv (acceptedData C s ρ d taken).recv (d.seq :: delivered)
      (consumed + consumedBy s.recv d.seq) := by
  have hcommit : RecvInv (taken.getD (recvCommit C s.recv d.seq)) (d.seq :: delivered)
      (consumed + consumedBy s.recv d.seq) := by
    rcases recvKey_cases hk with ⟨rfl, hle, -, -⟩ | ⟨r', rfl, hlt, ht⟩
    · exact h.commit hle hc
    · rw [consumedBy, if_pos hlt]
      exact (h.take ht).1
  obtain ⟨-, hr⟩ := applyHdr_recv (C := C) (ρ := ρ) d.hdr
    (s := ackMark { s with recv := taken.getD (recvCommit C s.recv d.seq) })
  rw [ackMark_sameReceiver.2] at hr
  unfold TkTox.acceptedData
  rcases hr with hr | ⟨dh, kem, hr⟩
  · rw [hr]
    exact hcommit
  · rw [hr]
    exact hcommit.fold dh kem

theorem RecvInv.dataReject (h : RecvInv s.recv delivered consumed) {key : Key}
    {taken : Option TTRatchet} (hk : recvKey C s.recv d.seq = .ok (key, taken)) :
    RecvInv (dataReject C s d.seq key taken).recv delivered consumed := by
  rw [(dataReject_recv d.seq key taken).2]
  rcases recvKey_cases hk with ⟨rfl, -⟩ | ⟨r', rfl, -, ht⟩
  · exact h
  · exact h.restore ht

/-- No seq was delivered twice since the last establishment, and while the session is
established its receiver is what `RecvInv` says. -/
structure Receiver.Inv (w : Receiver) : Prop where
  nodup : w.delivered.Nodup
  recv : w.session.active = true → RecvInv w.session.recv w.delivered w.consumed

theorem Receiver.Inv.of_sameReceiver {w : Receiver} (h : w.Inv) {s' : TTSession}
    (hs : SameReceiver w.session s') : Receiver.Inv ⟨s', w.delivered, w.consumed⟩ := by
  refine ⟨h.nodup, fun ha => ?_⟩
  rw [hs.2]
  exact h.recv (hs.1 ▸ ha)

theorem Receiver.Inv.of_effect {w : Receiver} (h : w.Inv) {s' : TTSession}
    (hs : HandshakeEffect C w.session false s') : Receiver.Inv ⟨s', w.delivered, w.consumed⟩ := by
  rcases hs with hs | hs
  · refine ⟨h.nodup, fun ha => ?_⟩
    rw [hs] at ha
    cases ha
  · exact h.of_sameReceiver hs

theorem Receiver.Inv.established {s' : TTSession} (hs : HandshakeEffect C s true s') :
    Receiver.Inv ⟨s', [], 0⟩ := by
  obtain ⟨root, b, hr⟩ := hs
  exact ⟨List.nodup_nil, fun _ => hr ▸ RecvInv.reset root b⟩

theorem deliveredSeq_of_error {cap : ℕ} {e : TTE2EEStatus}
    (h : (ttSessionFeed C s env ρ input cap).ret = .error e) :
    deliveredSeq C s env ρ input cap = none := by
  unfold deliveredSeq
  rw [h]
  split
  · rfl
  · split
    · rename_i heq
      cases heq
    · rfl

variable (C s env ρ) in
theorem deliveredSeq_of_type (cap : ℕ) (hp : ttFramePeek input = some d)
    (ht : d.type ≠ some .data) : deliveredSeq C s env ρ input cap = none := by
  simp only [deliveredSeq, hp]
  split
  · rename_i heq _
    exact absurd heq ht
  · rfl

theorem receiverStep_handshake {w : Receiver} (h : w.Inv) {cap : ℕ}
    (hd : deliveredSeq C w.session env ρ input cap = none)
    (he : HandshakeEffect C w.session (establishesOn C w.session env ρ input cap)
      (ttSessionFeed C w.session env ρ input cap).session) :
    (receiverStep C w (.feed env ρ input cap)).Inv := by
  simp only [receiverStep, hd, sessionStep]
  split_ifs with hf
  · rw [hf] at he
    exact .established he
  · rw [Bool.not_eq_true] at hf
    rw [hf] at he
    exact h.of_effect he

theorem receiverStep_data {w : Receiver} (h : w.Inv) {cap : ℕ} {t : TTSession}
    (ht : SameReceiver w.session t) (hp : ttFramePeek input = some d)
    (htype : d.type = some .data ∨ d.type = none)
    (hfeed : ttSessionFeed C w.session env ρ input cap = feedData C t ρ input d cap)
    (hc : (receiverStep C w (.feed env ρ input cap)).consumed < 2 ^ 32) :
    (receiverStep C w (.feed env ρ input cap)).Inv := by
  have hin : Receiver.Inv ⟨t, w.delivered, w.consumed⟩ := h.of_sameReceiver ht
  rcases feedData_cases (C := C) (s := t) (ρ := ρ) cap hp with
    ⟨e, hf⟩ | ⟨ha, key, taken, hk, -, hf⟩ | ⟨ha, key, taken, pt, hk, hdec, hf⟩
  · have hn : deliveredSeq C w.session env ρ input cap = none := by
      apply deliveredSeq_of_error (e := e)
      rw [hfeed, hf]
    refine receiverStep_handshake h hn ?_
    rw [establishesOn, hfeed, hf]
    exact Or.inr ht
  · have hn : deliveredSeq C w.session env ρ input cap = none := by
      apply deliveredSeq_of_error (e := .decodeFail)
      rw [hfeed, hf]
    have hi := (hin.recv ha).dataReject hk
    simp only [receiverStep, establishesOn, hn, sessionStep, hfeed, hf, Bool.false_and,
      Bool.false_eq_true, ↓reduceIte]
    exact ⟨h.nodup, fun _ => hi⟩
  · have htype : d.type = some .data := by
      refine htype.resolve_right fun hnone => ?_
      have := ttFrameDecode_type_isSome hdec
      rw [hnone] at this
      cases this
    have hn : deliveredSeq C w.session env ρ input cap = some d.seq := by
      simp only [deliveredSeq, hp, hfeed, hf, htype]
    simp only [receiverStep, establishesOn, hn, sessionStep, hfeed, hf, Bool.false_and,
      Bool.false_eq_true, ↓reduceIte] at hc ⊢
    have hi := (hin.recv ha).acceptedData (ρ := ρ) hk (by simpa [ht.2] using hc)
    rw [ht.2] at hi
    exact ⟨hi.delivered_nodup, fun _ => hi⟩

theorem receiverStep_inv {w : Receiver} (h : w.Inv) (op : SessionOp)
    (hc : (receiverStep C w op).consumed < 2 ^ 32) : (receiverStep C w op).Inv := by
  cases op with
  | feed env ρ input cap =>
    cases hp : ttFramePeek input with
    | none =>
      have hf : ttSessionFeed C w.session env ρ input cap = ⟨w.session, .error .decodeFail, false⟩ := by
        simp only [ttSessionFeed, hp]
      refine receiverStep_handshake h (by simp only [deliveredSeq, hp]) ?_
      rw [establishesOn, hf]
      exact Or.inr (.refl _)
    | some d =>
      cases ht : d.type with
      | none =>
        exact receiverStep_data h (.refl _) hp (Or.inr ht) (by simp only [ttSessionFeed, hp, ht]) hc
      | some t =>
        have hfeed (hne : t ≠ .data) := deliveredSeq_of_type C w.session env ρ cap
          hp (by rw [ht]; exact fun h => hne (Option.some.inj h))
        have hret (hne : t ≠ .init) : initRetransmit C w.session env input = false := by
          simp [initRetransmit, hp, ht, hne]
        cases t with
        | init =>
          refine receiverStep_handshake h (hfeed (by decide)) ?_
          simp only [establishesOn, ttSessionFeed, hp, ht]
          exact feedInit_effect hp ht
        | reply =>
          refine receiverStep_handshake h (hfeed (by decide)) ?_
          simp only [establishesOn, ttSessionFeed, hp, ht, hret (by decide), Bool.not_false,
            Bool.and_true]
          exact feedReply_effect hp
        | ack =>
          refine receiverStep_handshake h (hfeed (by decide)) ?_
          simp only [establishesOn, ttSessionFeed, hp, ht]
          rw [(feedControl_sameReceiver _).2]
          exact Or.inr (feedControl_sameReceiver _).1
        | resend =>
          refine receiverStep_handshake h (hfeed (by decide)) ?_
          simp only [establishesOn, ttSessionFeed, hp, ht]
          rw [(feedControl_sameReceiver _).2]
          exact Or.inr (feedControl_sameReceiver _).1
        | data =>
          exact receiverStep_data (t := { w.session with lastIn := input }) h ⟨rfl, rfl⟩ hp (Or.inl ht)
            (by simp only [ttSessionFeed, hp, ht]) hc
  | start env ρ now cap =>
    rcases ttSessionStart_inactive C w.session env ρ now cap with hs | hs
    · simp only [receiverStep, sessionStep, hs]
      exact h
    · exact ⟨h.nodup, fun ha => by simp [receiverStep, sessionStep, hs] at ha⟩
  | _ => exact h.of_sameReceiver (sessionStep_sameReceiver _ (by simp) (by simp))

theorem receiverRun_inv (hs : s.active = false) (ops : List SessionOp)
    (hc : ∀ pre, pre <+: ops → (receiverRun C s pre).consumed < 2 ^ 32) :
    (receiverRun C s ops).Inv := by
  induction ops using List.reverseRecOn with
  | nil => exact ⟨List.nodup_nil, fun ha => by simp [receiverRun, hs] at ha⟩
  | append_singleton ops op ih =>
    have hin := ih fun pre hpre => hc pre (hpre.trans (List.prefix_append _ _))
    have hstep := hc (ops ++ [op]) (List.prefix_rfl)
    simp only [receiverRun, List.foldl_append, List.foldl_cons, List.foldl_nil] at hstep ⊢
    exact receiverStep_inv hin op hstep

/-- Between two establishments no seq is delivered twice, whatever is fed in whatever order;
and the skipped-key ring holds distinct seqs, all passed over, none delivered, at most 96. -/
theorem delivered_at_most_once (hs : s.active = false) (ops : List SessionOp)
    (hc : ∀ pre, pre <+: ops → (receiverRun C s pre).consumed < 2 ^ 32) :
    (receiverRun C s ops).delivered.Nodup ∧
    ((receiverRun C s ops).session.active = true →
      ((receiverRun C s ops).session.recv.skipped.map Prod.fst).Nodup ∧
      (receiverRun C s ops).session.recv.skipped.length ≤ 96 ∧
      (receiverRun C s ops).session.recv.seq = ((receiverRun C s ops).consumed + 1) % 2 ^ 32 ∧
      ∀ e ∈ (receiverRun C s ops).session.recv.skipped,
        e.1 ∉ (receiverRun C s ops).delivered ∧ e.1 < (receiverRun C s ops).consumed + 1 ∧
        ((receiverRun C s ops).consumed + 1 < 2 ^ 32 →
          e.1 < (receiverRun C s ops).session.recv.seq)) := by
  have h := receiverRun_inv (C := C) hs ops hc
  refine ⟨h.nodup, fun ha => ?_⟩
  have hr := h.recv ha
  refine ⟨hr.ring_nodup, hr.ring_length, hr.seq_eq, fun e he => ⟨hr.ring_fresh e he, ?_⟩⟩
  have hle := Nat.lt_succ_of_le (hr.ring_le e he)
  refine ⟨hle, fun hlt => ?_⟩
  rwa [hr.seq_of_lt hlt]

namespace Instance

def hello : Bytes := okBytes (ttSessionSend crypto alice [104, 105] ttFrameMax (draws 5)).2

def helloTwice : List SessionOp :=
  [.feed bobEnv (draws 2) initFrame ttFrameDataMax, .feed bobEnv (draws 6) hello ttFrameDataMax,
    .feed bobEnv (draws 7) hello ttFrameDataMax]

end Instance

theorem delivered_at_most_once_helloTwice :
    (receiverRun Instance.crypto .zero Instance.helloTwice).delivered = [1] ∧
    (receiverRun Instance.crypto .zero Instance.helloTwice).delivered.Nodup := by
  have hc : ∀ pre ∈ Instance.helloTwice.inits,
      (receiverRun Instance.crypto .zero pre).consumed < 2 ^ 32 := by decide +kernel
  refine ⟨by decide +kernel, (delivered_at_most_once rfl Instance.helloTwice fun pre hpre => ?_).1⟩
  exact hc pre ((List.mem_inits pre _).mpr hpre)

end TkTox
