import TkTox.Session
import TkTox.Instance

/-!
The session record of `session_store.c`: how a session is written to the sidecar and read
back. A reader returns what it could read and the rest of the bytes, or `none` for a failure.
-/

namespace TkTox

def getBlob (n : ℕ) (p : Bytes) : Blob n × Bytes := (Blob.read n p, p.drop n)

def getU32 (p : Bytes) : ℕ × Bytes := (readU32 p, p.drop 4)

def getU16 (p : Bytes) : ℕ × Bytes := (readU16 p, p.drop 2)

def getFlag (p : Bytes) : Bool × Bytes := (decide (p.getD 0 0 ≠ 0), p.drop 1)

def putFlag (b : Bool) : Bytes := [if b then 1 else 0]

@[simp] theorem getBlob_append {n : ℕ} (b : Blob n) (p : Bytes) :
    getBlob n (b.bytes ++ p) = (b, p) := by
  rw [getBlob, Blob.read_append, List.drop_left' b.bytes_length]

theorem getU32_append {v : ℕ} (h : v < 2 ^ 32) (p : Bytes) : getU32 (u32be v ++ p) = (v, p) := by
  rw [getU32, readU32_u32be h, List.drop_left' (u32be_length v)]

theorem getU16_append {v : ℕ} (h : v < 2 ^ 16) (p : Bytes) : getU16 (u16be v ++ p) = (v, p) := by
  rw [getU16, readU16_u16be h, List.drop_left' (u16be_length v)]

@[simp] theorem getFlag_append (b : Bool) (p : Bytes) : getFlag (putFlag b ++ p) = (b, p) := by
  cases b <;> rfl

@[simp] theorem putFlag_length (b : Bool) : (putFlag b).length = 1 := rfl

def skippedPut (l : List (ℕ × Key)) : Bytes := l.flatMap fun e => u32be e.1 ++ e.2.bytes

def ratchetPut (r : TTRatchet) : Bytes :=
  r.chain.bytes ++ (u32be r.seq ++ (r.root.bytes ++ (u16be r.sinceFold ++
    (u16be r.skipped.length ++ skippedPut r.skipped))))

def skippedGet : ℕ → Bytes → List (ℕ × Key) × Option Bytes
  | 0, p => ([], some p)
  | n + 1, p =>
    if p.length < 4 + ttKey32 then ([], none)
    else
      let seq := getU32 p
      let key := getBlob 32 seq.2
      let rest := skippedGet n key.2
      ((seq.1, key.1) :: rest.1, rest.2)

def ratchetGet (p : Bytes) (r : TTRatchet) : TTRatchet × Option Bytes :=
  if p.length < ttKey32 + 4 + ttKey32 + 2 + 2 then (r, none)
  else
    let chain := getBlob 32 p
    let seq := getU32 chain.2
    let root := getBlob 32 seq.2
    let sinceFold := getU16 root.2
    let n := getU16 sinceFold.2
    let r := { r with chain := chain.1, seq := seq.1, root := root.1, sinceFold := sinceFold.1 }
    if n.1 > ttSessionSkippedMax then (r, none)
    else
      let skipped := skippedGet n.1 n.2
      ({ r with skipped := skipped.1 }, skipped.2)

def rekeyPut (k : TTRekey) : Bytes :=
  k.ephSk.bytes ++ (k.ephPk.bytes ++ (putFlag k.haveKem ++ (k.kemPk.bytes ++ (k.kemSk.bytes ++
    (putFlag k.peerHave ++ (k.peerKemPk.bytes ++ (k.peerEphPk.bytes ++ (putFlag k.rekeyDue ++
      (putFlag k.awaitingPeer ++ (putFlag k.published ++ (putFlag k.postFoldPublish ++
        putFlag k.publishBack)))))))))))

def rekeyGet (p : Bytes) (k : TTRekey) : TTRekey × Option Bytes :=
  if p.length < ttKey32 + ttKey32 + 1 + ttKemPk + ttKemSk + 1 + ttKemPk + ttKey32 + 5 then (k, none)
  else
    let ephSk := getBlob 32 p
    let ephPk := getBlob 32 ephSk.2
    let haveKem := getFlag ephPk.2
    let kemPk := getBlob 1158 haveKem.2
    let kemSk := getBlob 1763 kemPk.2
    let peerHave := getFlag kemSk.2
    let peerKemPk := getBlob 1158 peerHave.2
    let peerEphPk := getBlob 32 peerKemPk.2
    let rekeyDue := getFlag peerEphPk.2
    let awaitingPeer := getFlag rekeyDue.2
    let published := getFlag awaitingPeer.2
    let postFoldPublish := getFlag published.2
    let publishBack := getFlag postFoldPublish.2
    ({ k with
        ephSk := ephSk.1, ephPk := ephPk.1, haveKem := haveKem.1, kemPk := kemPk.1
        kemSk := kemSk.1, peerHave := peerHave.1, peerKemPk := peerKemPk.1
        peerEphPk := peerEphPk.1, rekeyDue := rekeyDue.1, awaitingPeer := awaitingPeer.1
        published := published.1, postFoldPublish := postFoldPublish.1
        publishBack := publishBack.1 },
      some publishBack.2)

def sentMsgPut (m : TTSentMsg) : Bytes :=
  u32be m.gen ++ (u32be m.seq ++ (u16be m.data.length ++ m.data))

def relPut (r : TTReliable) : Bytes :=
  u16be r.sent.count ++ (r.sent.entries.flatMap sentMsgPut ++ (u32be r.recvAcked ++
    (putFlag r.ackDue ++ (putFlag r.resendReqPending ++ (u32be r.resendReqGen ++
      (u32be r.resendReqFrom ++ (putFlag r.resendRepPending ++ (u32be r.resendRepGen ++
        (u32be r.resendRepFrom ++ u16be r.resendRepPos)))))))))

def sentMsgGet (p : Bytes) (m : TTSentMsg) : TTSentMsg × Option Bytes :=
  if p.length < 4 + 4 + 2 then (m, none)
  else
    let gen := getU32 p
    let seq := getU32 gen.2
    let len := getU16 seq.2
    if len.1 > ttFrameDataMax ∨ len.2.length < len.1 then
      ({ m with gen := gen.1, seq := seq.1 }, none)
    else (⟨gen.1, seq.1, len.2.take len.1⟩, some (len.2.drop len.1))

def sentGet : ℕ → ℕ → Bytes → (Fin ttSentMax → TTSentMsg) →
    (Fin ttSentMax → TTSentMsg) × Option Bytes
  | 0, _, p, m => (m, some p)
  | n + 1, i, p, m =>
    let msg := sentMsgGet p (m (sentIdx i))
    let m := Function.update m (sentIdx i) msg.1
    match msg.2 with
    | none => (m, none)
    | some p => sentGet n (i + 1) p m

def relTailGet (p : Bytes) (r : TTReliable) : TTReliable × Option Bytes :=
  if p.length < 4 + 1 + 1 + 4 + 4 + 1 + 4 + 4 + 2 then (r, none)
  else
    let recvAcked := getU32 p
    let ackDue := getFlag recvAcked.2
    let reqPending := getFlag ackDue.2
    let reqGen := getU32 reqPending.2
    let reqFrom := getU32 reqGen.2
    let repPending := getFlag reqFrom.2
    let repGen := getU32 repPending.2
    let repFrom := getU32 repGen.2
    let repPos := getU16 repFrom.2
    ({ r with
        recvAcked := recvAcked.1, ackDue := ackDue.1, resendReqPending := reqPending.1
        resendReqGen := reqGen.1, resendReqFrom := reqFrom.1, resendRepPending := repPending.1
        resendRepGen := repGen.1, resendRepFrom := repFrom.1, resendRepPos := repPos.1 },
      some repPos.2)

def relGet (p : Bytes) (r : TTReliable) : TTReliable × Option Bytes :=
  if p.length < 2 then (r, none)
  else
    let count := getU16 p
    let r := { r with sent := { r.sent with count := count.1 } }
    if count.1 > ttSentMax then (r, none)
    else
      let m := sentGet count.1 0 count.2 r.sent.m
      let r := { r with sent := { r.sent with m := m.1, head := 0 } }
      match m.2 with
      | none => (r, none)
      | some p => relTailGet p r

/-- The first byte is the place of the friend number, which the caller patches. -/
def sessionPut (s : TTSession) : Bytes :=
  [0] ++ (putFlag s.iAmInitiator ++ (s.root.bytes ++ (ratchetPut s.send ++ (ratchetPut s.recv ++
    (rekeyPut s.rekey ++ relPut s.rel)))))

def sessionGet (p : Bytes) (s : TTSession) : TTSession × Option Bytes :=
  if p.length < 1 + 1 + ttKey32 then (s, none)
  else
    let initiator := getFlag (p.drop 1)
    let root := getBlob 32 initiator.2
    let s := { s with iAmInitiator := initiator.1, root := root.1 }
    let send := ratchetGet root.2 s.send
    let s := { s with send := send.1 }
    match send.2 with
    | none => (s, none)
    | some p =>
      let recv := ratchetGet p s.recv
      let s := { s with recv := recv.1 }
      match recv.2 with
      | none => (s, none)
      | some p =>
        let rekey := rekeyGet p s.rekey
        let s := { s with rekey := rekey.1 }
        match rekey.2 with
        | none => (s, none)
        | some p =>
          let rel := relGet p s.rel
          let s := { s with rel := rel.1 }
          match rel.2 with
          | none => (s, none)
          | some p => ({ s with active := true }, some p)

/-- The fields fit their C types and the skipped keys their array. -/
structure TTRatchet.InRange (r : TTRatchet) : Prop where
  seq : r.seq < 2 ^ 32
  sinceFold : r.sinceFold < 2 ^ 16
  skipped : ∀ e ∈ r.skipped, e.1 < 2 ^ 32
  length : r.skipped.length ≤ ttSessionSkippedMax

structure TTReliable.InRange (r : TTReliable) : Prop where
  count : r.sent.count ≤ ttSentMax
  tags : ∀ e ∈ r.sent.entries, e.gen < 2 ^ 32 ∧ e.seq < 2 ^ 32
  lengths : ∀ e ∈ r.sent.entries, e.data.length ≤ ttFrameDataMax
  recvAcked : r.recvAcked < 2 ^ 32
  reqGen : r.resendReqGen < 2 ^ 32
  reqFrom : r.resendReqFrom < 2 ^ 32
  repGen : r.resendRepGen < 2 ^ 32
  repFrom : r.resendRepFrom < 2 ^ 32
  repPos : r.resendRepPos < 2 ^ 16

structure TTSession.InRange (s : TTSession) : Prop where
  send : s.send.InRange
  recv : s.recv.InRange
  rel : s.rel.InRange

theorem skippedGet_put {l : List (ℕ × Key)} (h : ∀ e ∈ l, e.1 < 2 ^ 32) (p : Bytes) :
    skippedGet l.length (skippedPut l ++ p) = (l, some p) := by
  induction l with
  | nil => rfl
  | cons e l ih =>
    have hput : skippedPut (e :: l) ++ p = u32be e.1 ++ (e.2.bytes ++ (skippedPut l ++ p)) := by
      simp [skippedPut]
    have hlen : ¬ (u32be e.1 ++ (e.2.bytes ++ (skippedPut l ++ p))).length < 4 + ttKey32 := by
      simp only [List.length_append, u32be_length, Blob.bytes_length, ttKey32]
      omega
    rw [List.length_cons, skippedGet, hput, if_neg hlen]
    simp only [getU32_append (h e List.mem_cons_self), getBlob_append,
      ih fun x hx => h x (List.mem_cons_of_mem _ hx)]

theorem ratchetGet_put {r : TTRatchet} (h : r.InRange) (r₀ : TTRatchet) (p : Bytes) :
    ratchetGet (ratchetPut r ++ p) r₀ = (r, some p) := by
  have hn : r.skipped.length < 2 ^ 16 := lt_of_le_of_lt h.length (by norm_num)
  have hput : ratchetPut r ++ p = r.chain.bytes ++ (u32be r.seq ++ (r.root.bytes ++
      (u16be r.sinceFold ++ (u16be r.skipped.length ++ (skippedPut r.skipped ++ p))))) := by
    simp only [ratchetPut, List.append_assoc]
  have hlen : ¬ (r.chain.bytes ++ (u32be r.seq ++ (r.root.bytes ++ (u16be r.sinceFold ++
      (u16be r.skipped.length ++ (skippedPut r.skipped ++ p)))))).length <
      ttKey32 + 4 + ttKey32 + 2 + 2 := by
    simp only [List.length_append, u32be_length, u16be_length, Blob.bytes_length, ttKey32]
    omega
  rw [ratchetGet, hput, if_neg hlen]
  simp only [getBlob_append, getU32_append h.seq, getU16_append h.sinceFold, getU16_append hn,
    skippedGet_put h.skipped, if_neg (not_lt.mpr h.length)]

theorem rekeyGet_put (k k₀ : TTRekey) (p : Bytes) :
    rekeyGet (rekeyPut k ++ p) k₀ = ({ k with carrier := k₀.carrier }, some p) := by
  have hlen : ¬ (rekeyPut k ++ p).length <
      ttKey32 + ttKey32 + 1 + ttKemPk + ttKemSk + 1 + ttKemPk + ttKey32 + 5 := by
    simp only [rekeyPut, List.length_append, putFlag_length, Blob.bytes_length, ttKey32, ttKemPk,
      ttKemSk]
    omega
  rw [rekeyGet, if_neg hlen]
  simp only [rekeyPut, List.append_assoc, getBlob_append, getFlag_append]

theorem sentMsgGet_put {m : TTSentMsg} (hg : m.gen < 2 ^ 32) (hs : m.seq < 2 ^ 32)
    (hl : m.data.length ≤ ttFrameDataMax) (m₀ : TTSentMsg) (p : Bytes) :
    sentMsgGet (sentMsgPut m ++ p) m₀ = (m, some p) := by
  have hn : m.data.length < 2 ^ 16 := lt_of_le_of_lt hl (by norm_num)
  have hput : sentMsgPut m ++ p =
      u32be m.gen ++ (u32be m.seq ++ (u16be m.data.length ++ (m.data ++ p))) := by
    simp only [sentMsgPut, List.append_assoc]
  have hlen : ¬ (u32be m.gen ++ (u32be m.seq ++ (u16be m.data.length ++ (m.data ++ p)))).length <
      4 + 4 + 2 := by
    simp only [List.length_append, u32be_length, u16be_length]
    omega
  have hfit : ¬ (m.data.length > ttFrameDataMax ∨ (m.data ++ p).length < m.data.length) := by
    rw [List.length_append]
    omega
  rw [sentMsgGet, hput, if_neg hlen]
  simp only [getU32_append hg, getU32_append hs, getU16_append hn, if_neg hfit, List.take_left,
    List.drop_left]

theorem sentGet_put {l : List TTSentMsg} (ht : ∀ e ∈ l, e.gen < 2 ^ 32 ∧ e.seq < 2 ^ 32)
    (hd : ∀ e ∈ l, e.data.length ≤ ttFrameDataMax) {i : ℕ} (hi : i + l.length ≤ ttSentMax)
    (m : Fin ttSentMax → TTSentMsg) (p : Bytes) :
    ∃ m', sentGet l.length i (l.flatMap sentMsgPut ++ p) m = (m', some p) ∧
      Ring.entries m' 0 (i + l.length) = Ring.entries m 0 i ++ l := by
  induction l generalizing i m with
  | nil => exact ⟨m, rfl, by simp⟩
  | cons e l ih =>
    rw [List.length_cons] at hi
    have hget := sentMsgGet_put (ht e List.mem_cons_self).1 (ht e List.mem_cons_self).2
      (hd e List.mem_cons_self) (m (sentIdx i)) (l.flatMap sentMsgPut ++ p)
    obtain ⟨m', hm, he⟩ := ih (fun x hx => ht x (List.mem_cons_of_mem _ hx))
      (fun x hx => hd x (List.mem_cons_of_mem _ hx)) (i := i + 1) (by omega)
      (Function.update m (sentIdx i) e)
    refine ⟨m', ?_, ?_⟩
    · rw [List.length_cons, List.flatMap_cons, List.append_assoc, sentGet]
      simp only [hget, hm]
    · have hpush := Ring.entries_push m 0
        (show i < ttSentMax by omega) e
      rw [Nat.zero_add] at hpush
      rw [List.length_cons, show i + (l.length + 1) = i + 1 + l.length by omega, he, sentIdx, hpush,
        List.append_assoc]
      rfl

theorem relTailGet_put {r : TTReliable} (h : r.InRange) (r₀ : TTReliable) (p : Bytes) :
    relTailGet (u32be r.recvAcked ++ (putFlag r.ackDue ++ (putFlag r.resendReqPending ++
      (u32be r.resendReqGen ++ (u32be r.resendReqFrom ++ (putFlag r.resendRepPending ++
        (u32be r.resendRepGen ++ (u32be r.resendRepFrom ++ (u16be r.resendRepPos ++ p))))))))) r₀ =
      ({ r with sent := r₀.sent }, some p) := by
  have hlen : ¬ (u32be r.recvAcked ++ (putFlag r.ackDue ++ (putFlag r.resendReqPending ++
      (u32be r.resendReqGen ++ (u32be r.resendReqFrom ++ (putFlag r.resendRepPending ++
        (u32be r.resendRepGen ++ (u32be r.resendRepFrom ++
          (u16be r.resendRepPos ++ p))))))))).length < 4 + 1 + 1 + 4 + 4 + 1 + 4 + 4 + 2 := by
    simp only [List.length_append, u32be_length, u16be_length, putFlag_length]
    omega
  rw [relTailGet, if_neg hlen]
  simp only [getU32_append h.recvAcked, getU32_append h.reqGen, getU32_append h.reqFrom,
    getU32_append h.repGen, getU32_append h.repFrom, getU16_append h.repPos, getFlag_append]

theorem relGet_put {r : TTReliable} (h : r.InRange) (r₀ : TTReliable) (p : Bytes) :
    ∃ sent, relGet (relPut r ++ p) r₀ = ({ r with sent := sent }, some p) ∧
      sent.entries = r.sent.entries ∧ sent.count = r.sent.count := by
  have hlength : r.sent.entries.length = r.sent.count := Ring.entries_length
  have hn : r.sent.count < 2 ^ 16 := lt_of_le_of_lt h.count (by norm_num)
  obtain ⟨m', hm, he⟩ := sentGet_put h.tags h.lengths (i := 0)
    (by rw [Nat.zero_add, hlength]; exact h.count) r₀.sent.m
    (u32be r.recvAcked ++ (putFlag r.ackDue ++ (putFlag r.resendReqPending ++
      (u32be r.resendReqGen ++ (u32be r.resendReqFrom ++ (putFlag r.resendRepPending ++
        (u32be r.resendRepGen ++ (u32be r.resendRepFrom ++ (u16be r.resendRepPos ++ p)))))))))
  rw [hlength, Nat.zero_add, Ring.entries_zero, List.nil_append] at he
  rw [hlength] at hm
  refine ⟨⟨m', 0, r.sent.count⟩, ?_, he, rfl⟩
  have hlen : ¬ (relPut r ++ p).length < 2 := by
    simp only [relPut, List.length_append, u16be_length]
    omega
  rw [relGet, if_neg hlen]
  simp only [relPut, List.append_assoc, getU16_append hn, if_neg (not_lt.mpr h.count), hm,
    relTailGet_put h]

theorem sessionGet_put {s : TTSession} (h : s.InRange) (t : TTSession) (rest : Bytes) :
    ∃ sent, sessionGet (sessionPut s ++ rest) t =
        ({ t with
            active := true, iAmInitiator := s.iAmInitiator, root := s.root, send := s.send
            recv := s.recv, rekey := { s.rekey with carrier := t.rekey.carrier }
            rel := { s.rel with sent := sent } }, some rest) ∧
      sent.entries = s.rel.sent.entries := by
  obtain ⟨sent, hrel, he, -⟩ := relGet_put h.rel t.rel rest
  refine ⟨sent, ?_, he⟩
  have hput : sessionPut s ++ rest = 0 :: (putFlag s.iAmInitiator ++ (s.root.bytes ++
      (ratchetPut s.send ++ (ratchetPut s.recv ++ (rekeyPut s.rekey ++ (relPut s.rel ++ rest)))))) := by
    simp only [sessionPut, List.append_assoc, List.cons_append, List.nil_append]
  have hlen : ¬ (sessionPut s ++ rest).length < 1 + 1 + ttKey32 := by
    rw [hput]
    simp only [List.length_cons, List.length_append, putFlag_length, Blob.bytes_length, ttKey32]
    omega
  rw [sessionGet, if_neg hlen, hput]
  simp only [List.drop_succ_cons, List.drop_zero, getFlag_append, getBlob_append,
    ratchetGet_put h.send, ratchetGet_put h.recv, rekeyGet_put, hrel]

/-- Every stored field of a written session reads back, whatever follows the record. -/
theorem session_record_round_trip {s : TTSession} (h : s.InRange) (t : TTSession) (rest : Bytes) :
    ∃ u, sessionGet (sessionPut s ++ rest) t = (u, some rest) ∧ u.active = true ∧
      u.iAmInitiator = s.iAmInitiator ∧ u.root = s.root ∧ u.send = s.send ∧ u.recv = s.recv ∧
      u.rekey = { s.rekey with carrier := t.rekey.carrier } ∧
      u.rel.sent.entries = s.rel.sent.entries ∧ u.rel = { s.rel with sent := u.rel.sent } := by
  obtain ⟨sent, hget, he⟩ := sessionGet_put h t rest
  exact ⟨_, hget, rfl, rfl, rfl, rfl, rfl, rfl, he, rfl⟩

namespace Instance

def storedBob : TTSession :=
  { bob with
    recv := { bob.recv with seq := 4, skipped := [(2, aliceSk), (3, bobSk)] }
    rel := { bob.rel with
      sent := relSentAdd (relSentAdd { TTSentBuf.zero with head := 31 } 9 1 fun _ => [1, 2]) 9 2
        fun _ => [3]
      recvAcked := 3, ackDue := true } }

theorem storedBob_inRange : storedBob.InRange := by
  have h : (storedBob.send.seq < 2 ^ 32 ∧ storedBob.send.sinceFold < 2 ^ 16 ∧
      (∀ e ∈ storedBob.send.skipped, e.1 < 2 ^ 32) ∧
      storedBob.send.skipped.length ≤ ttSessionSkippedMax) ∧
      (storedBob.recv.seq < 2 ^ 32 ∧ storedBob.recv.sinceFold < 2 ^ 16 ∧
      (∀ e ∈ storedBob.recv.skipped, e.1 < 2 ^ 32) ∧
      storedBob.recv.skipped.length ≤ ttSessionSkippedMax) ∧
      (storedBob.rel.sent.count ≤ ttSentMax ∧
      (∀ e ∈ storedBob.rel.sent.entries, e.gen < 2 ^ 32 ∧ e.seq < 2 ^ 32) ∧
      (∀ e ∈ storedBob.rel.sent.entries, e.data.length ≤ ttFrameDataMax) ∧
      storedBob.rel.recvAcked < 2 ^ 32 ∧ storedBob.rel.resendReqGen < 2 ^ 32 ∧
      storedBob.rel.resendReqFrom < 2 ^ 32 ∧ storedBob.rel.resendRepGen < 2 ^ 32 ∧
      storedBob.rel.resendRepFrom < 2 ^ 32 ∧ storedBob.rel.resendRepPos < 2 ^ 16) := by
    decide +kernel
  obtain ⟨⟨a1, a2, a3, a4⟩, ⟨b1, b2, b3, b4⟩, c1, c2, c3, c4, c5, c6, c7, c8, c9⟩ := h
  exact ⟨⟨a1, a2, a3, a4⟩, ⟨b1, b2, b3, b4⟩, ⟨c1, c2, c3, c4, c5, c6, c7, c8, c9⟩⟩

end Instance

theorem session_record_round_trip_bob :
    ∃ u, sessionGet (sessionPut Instance.storedBob ++ [1, 2, 3]) TTSession.zero =
        (u, some [1, 2, 3]) ∧ u.active = true ∧ u.recv = Instance.storedBob.recv ∧
      u.rel.sent.entries = [⟨9, 1, [1, 2]⟩, ⟨9, 2, [3]⟩] := by
  obtain ⟨u, hget, ha, -, -, -, hr, -, he, -⟩ :=
    session_record_round_trip Instance.storedBob_inRange TTSession.zero [1, 2, 3]
  have hl : Instance.storedBob.rel.sent.entries = [⟨9, 1, [1, 2]⟩, ⟨9, 2, [3]⟩] := by decide
  exact ⟨u, hget, ha, hr, he.trans hl⟩

end TkTox
