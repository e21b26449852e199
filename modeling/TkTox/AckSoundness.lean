import TkTox.RelFeed
import TkTox.Instance

/-!
ACK soundness: an ACK evicts only what the peer has opened, as long as it is polled with no
key in the skipped ring and a mark below the expected seq, and no frame makes the ring drop a
key.
-/

namespace TkTox

variable {C : Crypto} {envs : Bool → TTE2EEEnv} {w : RelWorld} {ρ : Draws}

/-- The steps from which an ACK stays true. A poll sends an ACK only with an empty ring and a
mark of the current session; a frame of the current session keeps the ring; no seq wraps. -/
def AckSafe (w : RelWorld) : RelOp → Prop
  | .relPoll i _ => (w.sess i).send.seq + ttSentMax < 2 ^ 32 ∧ (AcksNext (w.sess i) →
      (w.sess i).recv.skipped = [] ∧ (w.sess i).rel.recvAcked < (w.sess i).recv.seq)
  | .send i _ _ => (w.sess i).send.seq + 1 < 2 ^ 32
  | .flush i _ => (w.sess i).send.seq + 1 < 2 ^ 32
  | .feed i k _ => ∀ m ∈ (w.net !i)[k]?, ∀ t ∈ m.tag, t.root = (w.sess i).root →
      ∀ d ∈ ttFramePeek m.frame, RingKept (w.sess i).recv d
  | _ => True

instance (w : RelWorld) (op : RelOp) : Decidable (AckSafe w op) :=
  match op with
  | .relPoll i _ => inferInstanceAs (Decidable ((w.sess i).send.seq + ttSentMax < 2 ^ 32 ∧
      (AcksNext (w.sess i) →
        (w.sess i).recv.skipped = [] ∧ (w.sess i).rel.recvAcked < (w.sess i).recv.seq)))
  | .send i _ _ => inferInstanceAs (Decidable ((w.sess i).send.seq + 1 < 2 ^ 32))
  | .flush i _ => inferInstanceAs (Decidable ((w.sess i).send.seq + 1 < 2 ^ 32))
  | .feed i k _ => inferInstanceAs (Decidable (∀ m ∈ (w.net !i)[k]?, ∀ t ∈ m.tag,
      t.root = (w.sess i).root → ∀ d ∈ ttFramePeek m.frame, RingKept (w.sess i).recv d))
  | .start _ _ _ | .reply _ _ | .tick _ _ _ | .rekeyDue _ => inferInstanceAs (Decidable True)

/-- A feed evicts a buffered message only if the peer has opened the very text sealed under
its tag, and an ACK claims only texts this side has opened. -/
def AckSound (C : Crypto) (envs : Bool → TTE2EEEnv) (w : RelWorld) (op : RelOp) : Prop :=
  (∀ i k ρ, op = .feed i k ρ → ∀ e ∈ (w.sess i).rel.sent.entries,
    e ∉ ((relStep C envs w op).sess i).rel.sent.entries →
      (∃ t ∈ tagsOf (w.net i), relGen C t.root = e.gen ∧ t.seq = e.seq) ∧
      ∀ t ∈ tagsOf (w.net i), relGen C t.root = e.gen → t.seq = e.seq → t ∈ w.log !i) ∧
  (∀ i ρ, op = .relPoll i ρ → AcksNext (w.sess i) → ∀ t ∈ tagsOf (w.net !i),
    relGen C t.root = relGen C (w.sess i).root → t.seq ≤ (w.sess i).rel.recvAcked → t ∈ w.log i)

structure RelInv (C : Crypto) (w : RelWorld) : Prop where
  side : ∀ i, TransportInv C (w.sess i) (w.net i) (w.log i) (w.roots i)
  opened : ∀ i, ∀ t ∈ w.log i, t ∈ tagsOf (w.net !i)
  gens : ∀ i j, ∀ r ∈ w.roots i, ∀ r' ∈ w.roots j, relGen C r = relGen C r' → r = r'

namespace RelInv

theorem fresh : RelInv C .fresh where
  side _ := .fresh
  opened _ t ht := by cases ht
  gens _ _ r hr := by cases hr

theorem emits (h : RelInv C w) (i : Bool) {s : TTSession} {out : List RelFrame}
    (hi : TransportInv C s (w.net i ++ out) (w.log i) (w.roots i)) :
    RelInv C { w with
      sess := Function.update w.sess i s
      net := Function.update w.net i (w.net i ++ out) } := by
  constructor
  case side =>
    intro j
    rcases Bool.eq_or_eq_not j i with rfl | rfl
    · simp only [Function.update_self]
      exact hi
    · simp only [Function.update_of_ne (Bool.not_ne_self i)]
      exact h.side _
  case opened =>
    intro j t ht
    have hold := h.opened j t ht
    rcases Bool.eq_or_eq_not (!j) i with hj | hj
    · dsimp only
      rw [hj] at hold ⊢
      rw [Function.update_self, tagsOf, List.filterMap_append]
      exact List.mem_append_left _ hold
    · dsimp only
      rw [Function.update_of_ne (by rw [hj]; exact Bool.not_ne_self i)]
      exact hold
  case gens => exact h.gens

theorem opened_text (hC : C.AeadCorrect) {s : TTSession} {f : Bytes} {key : Key} {t : Tagged}
    (hw : RelFrame.WellFormed C (.data f key t)) (hlt : t.seq < 2 ^ 32)
    (ha : Authentic C s (.data f key t)) {d : TTFrameDesc} (hp : ttFramePeek f = some d)
    {k : Key} {taken : Option TTRatchet} (hk : recvKey C s.recv d.seq = .ok (k, taken))
    {pt : Bytes} (hd : ttFrameDecode C f k ttFrameDataMax = some (d, pt)) :
    t = ⟨s.root, d.seq, pt⟩ := by
  obtain ⟨flags, nonce, hdr, he⟩ := hw
  have hopen : openingKey C s f = some k := by
    simp only [openingKey, hp, hk, hd, Option.map_some]
  obtain ⟨rfl, hroot⟩ := ha k hopen
  have htext := ttFrameDecode_encode_eq hC hlt he hd
  have hseq : d.seq = t.seq := by
    rw [ttFramePeek_encode hlt he] at hp
    cases hp
    rfl
  rw [hseq, ← hroot]
  dsimp only at htext
  rw [htext]

/-- What a delivery leaves of the side it is made to. -/
structure Delivered (C : Crypto) (w : RelWorld) (i : Bool) (env : TTE2EEEnv) (ρ : Draws)
    (m : RelFrame) : Prop where
  side : TransportInv C (ttSessionFeed C (w.sess i) env ρ m.frame ttFrameDataMax).session (w.net i)
    (deliveredTag C (w.sess i) env ρ m ++ w.log i)
    (if establishesOn C (w.sess i) env ρ m.frame ttFrameDataMax then
      (ttSessionFeed C (w.sess i) env ρ m.frame ttFrameDataMax).session.root :: w.roots i
      else w.roots i)
  opened : ∀ t ∈ deliveredTag C (w.sess i) env ρ m, t ∈ tagsOf (w.net !i)

theorem handshake (h : RelInv C w) {i : Bool} {f : Bytes} (hm : .handshake f ∈ w.net !i)
    (env : TTE2EEEnv) (hfresh : establishesOn C (w.sess i) env ρ f ttFrameDataMax = true →
      FreshRoot C w i (ttSessionFeed C (w.sess i) env ρ f ttFrameDataMax).session.root) :
    Delivered C w i env ρ (.handshake f) := by
  have hw := (h.side _).frames _ hm
  refine ⟨?_, fun _ ht => absurd ht List.not_mem_nil⟩
  change TransportInv C (ttSessionFeed C (w.sess i) env ρ f ttFrameDataMax).session _ (w.log i)
    (if establishesOn C (w.sess i) env ρ f ttFrameDataMax then _ else _)
  rcases ttSessionFeed_handshake hw (w.sess i) env ρ ttFrameDataMax with ⟨hb, he⟩ | ⟨hb, hq⟩
  · rw [if_pos hb]
    exact (h.side i).establish he (hfresh hb).1
  · rw [if_neg (ne_true_of_eq_false hb)]
    exact (h.side i).quiet hq

theorem feed_control {s : TTSession} {f : Bytes} {type : TTFrameType} {root : Key} {a b : ℕ}
    (hw : RelFrame.WellFormed C (.control f type root a b)) (env : TTE2EEEnv) (ρ : Draws) :
    (ttSessionFeed C s env ρ f ttFrameDataMax).handshaked = false ∧
      ((ttSessionFeed C s env ρ f ttFrameDataMax).session = s ∨
      ∃ d payload, (type = .ack ∨ type = .resend) ∧
        ttFrameDecode C f (controlKey C s.root) 16 = some (d, payload) ∧
        (ttSessionFeed C s env ρ f ttFrameDataMax).session =
          { s with rel := controlRel s.rel type payload }) := by
  obtain ⟨htype, hf⟩ := hw
  rcases hf with rfl | ⟨nonce, he⟩
  · have hfeed : ttSessionFeed C s env ρ [] ttFrameDataMax = ⟨s, .error .decodeFail, false⟩ := rfl
    rw [hfeed]
    exact ⟨rfl, Or.inl rfl⟩
  have hp := ttFramePeek_encode (by decide) he
  obtain ⟨d, hd⟩ : ∃ d, ttFramePeek f = some d ∧ d.type = some type := ⟨_, hp, rfl⟩
  have hfeed : ttSessionFeed C s env ρ f ttFrameDataMax = feedControl C s type f d := by
    rw [ttSessionFeed, hd.1]
    dsimp only
    rw [hd.2]
    rcases htype with rfl | rfl <;> rfl
  rw [hfeed]
  rcases feedControl_cases C s f d type with
    ⟨r, hr⟩ | ⟨-, -, -, d', payload, hdec, -, hr⟩
  · rw [hr]
    exact ⟨rfl, Or.inl rfl⟩
  · rw [hr]
    exact ⟨rfl, Or.inr ⟨d', payload, htype, hdec, rfl⟩⟩

theorem control (h : RelInv C w) {i : Bool} {f : Bytes} {type : TTFrameType} {root : Key}
    {a b : ℕ} (hm : .control f type root a b ∈ w.net !i) (env : TTE2EEEnv) (ρ : Draws) :
    Delivered C w i env ρ (.control f type root a b) := by
  obtain ⟨hh, hs⟩ := feed_control (s := w.sess i) ((h.side _).frames _ hm) env ρ
  have hb : establishesOn C (w.sess i) env ρ f ttFrameDataMax = false := by
    rw [establishesOn, hh]
    rfl
  refine ⟨?_, fun _ ht => absurd ht List.not_mem_nil⟩
  change TransportInv C (ttSessionFeed C (w.sess i) env ρ f ttFrameDataMax).session _ (w.log i)
    (if establishesOn C (w.sess i) env ρ f ttFrameDataMax then _ else _)
  rw [if_neg (ne_true_of_eq_false hb)]
  rcases hs with hs | ⟨d, payload, rfl | rfl, -, hs⟩ <;> rw [hs]
  · exact h.side i
  · exact (h.side i).compact _
  · exact (h.side i).quiet ⟨rfl, rfl, rfl, Or.inl rfl, Or.inr ⟨rfl, rfl, rfl, rfl⟩⟩

theorem feed_data {s : TTSession} {f : Bytes} {key : Key} {t : Tagged}
    (hw : RelFrame.WellFormed C (.data f key t)) (hlt : t.seq < 2 ^ 32) (env : TTE2EEEnv)
    (ρ : Draws) : ∃ d, ttFramePeek f = some d ∧ ttSessionFeed C s env ρ f ttFrameDataMax =
      feedData C { s with lastIn := f } ρ f d ttFrameDataMax := by
  obtain ⟨flags, nonce, hdr, he⟩ := hw
  have hp := ttFramePeek_encode hlt he
  refine ⟨_, hp, ?_⟩
  rw [ttSessionFeed, hp]

theorem data (hC : C.AeadCorrect) (h : RelInv C w) {i : Bool} {f : Bytes} {key : Key} {t : Tagged}
    (hm : .data f key t ∈ w.net !i) (env : TTE2EEEnv) (ρ : Draws)
    (ha : Authentic C (w.sess i) (.data f key t))
    (hkept : t.root = (w.sess i).root → ∀ d ∈ ttFramePeek f, RingKept (w.sess i).recv d) :
    Delivered C w i env ρ (.data f key t) := by
  have hw := (h.side _).frames _ hm
  have htag : t ∈ tagsOf (w.net !i) := mem_tagsOf.mpr ⟨f, key, hm⟩
  have hlt := ((h.side _).tag t htag).2.2
  obtain ⟨d, hp, hfeed⟩ := feed_data (s := w.sess i) hw hlt env ρ
  have hside : TransportInv C { w.sess i with lastIn := f } (w.net i) (w.log i) (w.roots i) :=
    { h.side i with }
  have hb : establishesOn C (w.sess i) env ρ f ttFrameDataMax = false := by
    rw [establishesOn, hfeed, feedData_handshaked _ hp]
    rfl
  have hrefused {s' : TTSession} {e : TTE2EEStatus}
      (hr : ttSessionFeed C (w.sess i) env ρ f ttFrameDataMax = ⟨s', .error e, false⟩)
      (hs : TransportInv C s' (w.net i) (w.log i) (w.roots i)) :
      Delivered C w i env ρ (.data f key t) := by
    have htags : deliveredTag C (w.sess i) env ρ (.data f key t) = [] := by
      simp only [deliveredTag, RelFrame.frame, hr]
      split <;> simp_all
    constructor
    case side =>
      rw [htags]
      change TransportInv C (ttSessionFeed C (w.sess i) env ρ f ttFrameDataMax).session _ (w.log i)
        (if establishesOn C (w.sess i) env ρ f ttFrameDataMax then _ else _)
      rw [if_neg (ne_true_of_eq_false hb), hr]
      exact hs
    case opened =>
      rw [htags]
      simp
  rcases feedData_cases (C := C) (s := { w.sess i with lastIn := f }) (ρ := ρ) ttFrameDataMax hp with
    ⟨e, hr⟩ | ⟨hact, k, taken, hk, -, hr⟩ | ⟨hact, k, taken, pt, hk, hdec, hr⟩
  · exact hrefused (hfeed.trans hr) hside
  · exact hrefused (hfeed.trans hr) (hside.rejected hk)
  · have heq : t = ⟨(w.sess i).root, d.seq, pt⟩ := opened_text hC hw hlt ha hp hk hdec
    have htags : deliveredTag C (w.sess i) env ρ (.data f key t) = [⟨(w.sess i).root, d.seq, pt⟩] := by
      simp only [deliveredTag, RelFrame.frame, hfeed, hr, hp]
    constructor
    case side =>
      rw [htags]
      change TransportInv C (ttSessionFeed C (w.sess i) env ρ f ttFrameDataMax).session _ _
        (if establishesOn C (w.sess i) env ρ f ttFrameDataMax then _ else _)
      rw [if_neg (ne_true_of_eq_false hb), hfeed, hr]
      have hseq : d.seq < 2 ^ 32 := by
        rw [heq] at hlt
        exact hlt
      exact hside.data hseq hact hk (hkept (by rw [heq]) d hp) pt ρ
    case opened =>
      rw [htags]
      intro t' ht'
      rw [List.mem_singleton.mp ht', ← heq]
      exact htag

theorem delivered (hC : C.AeadCorrect) (h : RelInv C w) {i : Bool} {k : ℕ} {m : RelFrame}
    (hm : (w.net !i)[k]? = some m) (hideal : IdealStep C envs w (.feed i k ρ))
    (hsafe : AckSafe w (.feed i k ρ)) : Delivered C w i (envs i) ρ m := by
  have hmem := List.mem_of_getElem? hm
  obtain ⟨hauth, hfresh⟩ := hideal m hm
  cases m with
  | handshake f => exact h.handshake hmem (envs i) hfresh
  | control f type root a b => exact h.control hmem (envs i) ρ
  | data f key t => exact h.data hC hmem (envs i) ρ hauth (hsafe _ hm t rfl)

theorem feed (hC : C.AeadCorrect) (h : RelInv C w) (i : Bool) (k : ℕ)
    (hideal : IdealStep C envs w (.feed i k ρ)) (hsafe : AckSafe w (.feed i k ρ)) :
    RelInv C (relStep C envs w (.feed i k ρ)) := by
  cases hm : (w.net !i)[k]? with
  | none =>
    simp only [relStep, hm]
    exact h
  | some m =>
    have hd := h.delivered hC hm hideal hsafe
    have hfresh := (hideal m hm).2
    simp only [relStep, hm]
    have hroots : ∀ j, ∀ r ∈ Function.update w.roots i
        (if establishesOn C (w.sess i) (envs i) ρ m.frame ttFrameDataMax then
          (ttSessionFeed C (w.sess i) (envs i) ρ m.frame ttFrameDataMax).session.root :: w.roots i
          else w.roots i) j,
        r ∈ w.roots j ∨ (establishesOn C (w.sess i) (envs i) ρ m.frame ttFrameDataMax = true ∧
          r = (ttSessionFeed C (w.sess i) (envs i) ρ m.frame ttFrameDataMax).session.root) := by
      intro j r hr
      rcases Bool.eq_or_eq_not j i with rfl | rfl
      · rw [Function.update_self] at hr
        split_ifs at hr with hb
        · rcases List.mem_cons.mp hr with hr | hr
          · exact Or.inr ⟨hb, hr⟩
          · exact Or.inl hr
        · exact Or.inl hr
      · rw [Function.update_of_ne (Bool.not_ne_self i)] at hr
        exact Or.inl hr
    constructor
    case side =>
      intro j
      rcases Bool.eq_or_eq_not j i with rfl | rfl
      · simp only [Function.update_self]
        exact hd.side
      · simp only [Function.update_of_ne (Bool.not_ne_self i)]
        exact h.side _
    case opened =>
      intro j t ht
      rcases Bool.eq_or_eq_not j i with rfl | rfl
      · simp only [Function.update_self] at ht
        rcases List.mem_append.mp ht with ht | ht
        · exact hd.opened t ht
        · exact h.opened j t ht
      · simp only [Function.update_of_ne (Bool.not_ne_self i)] at ht
        exact h.opened _ t ht
    case gens =>
      intro j j' r hr r' hr' hg
      rcases hroots j r hr with hr | ⟨hb, rfl⟩ <;> rcases hroots j' r' hr' with hr' | ⟨hb', rfl⟩
      · exact h.gens j j' r hr r' hr' hg
      · exact (hfresh hb').2 j r hr hg
      · exact ((hfresh hb).2 j' r' hr' hg.symm).symm
      · rfl

theorem step (hC : C.AeadCorrect) (h : RelInv C w) (op : RelOp) (hideal : IdealStep C envs w op)
    (hsafe : AckSafe w op) : RelInv C (relStep C envs w op) := by
  cases op with
  | start i ρ now => exact h.emits i ((h.side i).start (envs i) ρ now)
  | reply i ρ => exact h.emits i ((h.side i).reply (envs i) ρ)
  | tick i ρ now => exact h.emits i ((h.side i).tick (envs i) ρ now)
  | send i text ρ => exact h.emits i ((h.side i).send hsafe text ρ)
  | flush i ρ => exact h.emits i ((h.side i).flush hsafe ρ)
  | relPoll i ρ => exact h.emits i ((h.side i).relPoll hsafe.1 hsafe.2 ρ)
  | rekeyDue i =>
    have hi := (h.side i).rekeyDue
    rw [← List.append_nil (w.net i)] at hi
    have hs := h.emits i hi
    rw [List.append_nil, Function.update_eq_self] at hs
    exact hs
  | feed i k ρ => exact h.feed hC i k hideal hsafe

theorem same_text (h : RelInv C w) {i : Bool} {root : Key} {n : ℕ}
    (hroot : root ∈ w.roots !i) (hlog : ∃ text, ⟨root, n, text⟩ ∈ w.log !i) {t : Tagged}
    (ht : t ∈ tagsOf (w.net i)) (hg : relGen C t.root = relGen C root) (hn : t.seq = n) :
    t ∈ w.log !i := by
  obtain ⟨text, hl⟩ := hlog
  have hr : t.root = root := h.gens i (!i) _ ((h.side i).tag t ht).1 _ hroot hg
  have hl' := h.opened _ _ hl
  rw [Bool.not_not] at hl'
  rw [(h.side i).unique t ht _ hl' hr hn]
  exact hl

theorem evicted (hC : C.AeadCorrect) (h : RelInv C w) {i : Bool} {f : Bytes} {root : Key} {a b : ℕ}
    (hm : .control f .ack root a b ∈ w.net !i)
    (hauth : Authentic C (w.sess i) (.control f .ack root a b)) {d : TTFrameDesc} {payload : Bytes}
    (hdec : ttFrameDecode C f (controlKey C (w.sess i).root) 16 = some (d, payload))
    {e : TTSentMsg} (he : e ∈ (w.sess i).rel.sent.entries)
    (hout : e ∉ (controlRel (w.sess i).rel .ack payload).sent.entries) {t : Tagged}
    (ht : t ∈ tagsOf (w.net i)) (hg : relGen C t.root = e.gen) (hn : t.seq = e.seq) :
    t ∈ w.log !i := by
  have hroot : root = (w.sess i).root := hauth (by rw [hdec]; rfl)
  obtain ⟨hr, rfl, ha, hlog⟩ := (h.side _).acks _ _ _ _ hm
  obtain ⟨-, hf | ⟨nonce, henc⟩⟩ := (h.side _).frames _ hm
  · rw [hf] at hdec
    cases hdec
  rw [hroot] at henc
  have hpay : payload = u32be a ++ u32be (relGen C (w.sess i).root) :=
    ttFrameDecode_encode_eq hC (by decide) henc hdec
  have hacked : readU32 payload = a := by rw [hpay, readU32_u32be ha]
  have hgen : readU32 (payload.drop 4) = relGen C root := by
    have hdrop : payload.drop 4 = u32be (relGen C root) ++ [] := by
      rw [hpay, hroot, List.append_nil]
      exact List.drop_left' (u32be_length a)
    have hlt : relGen C root < 2 ^ 32 := readU32_lt _
    rw [hdrop, readU32_u32be hlt]
  have hcomp := (relCompact_entries (h.side i).count
    (fun e => e.gen == relGen C root && e.seq ≤ a)).1
  have hev : e.gen = relGen C root ∧ e.seq ≤ a := by
    by_contra hno
    refine hout ?_
    change e ∈ (relSentAck (w.sess i).rel.sent (readU32 (payload.drop 4))
      (readU32 payload)).entries
    rw [hacked, hgen, relSentAck, hcomp]
    refine List.mem_filter.mpr ⟨he, ?_⟩
    rw [Bool.not_eq_true', Bool.and_eq_false_iff]
    by_cases h1 : e.gen = relGen C root
    · exact Or.inr (by simpa using fun hle => hno ⟨h1, hle⟩)
    · exact Or.inl (by simpa using h1)
  have h1 := ((h.side i).tag t ht).2.1
  exact h.same_text hr (hlog t.seq h1 (by omega)) ht (hg.trans hev.1) rfl

theorem sound (hC : C.AeadCorrect) (h : RelInv C w) (op : RelOp) (hideal : IdealStep C envs w op)
    (hsafe : AckSafe w op) : AckSound C envs w op := by
  constructor
  · rintro i k ρ rfl e he hout
    refine ⟨(h.side i).buffered e he, fun t ht hg hn => ?_⟩
    cases hm : (w.net !i)[k]? with
    | none =>
      simp only [relStep, hm] at hout
      exact absurd he hout
    | some m =>
      have hmem := List.mem_of_getElem? hm
      simp only [relStep, hm, Function.update_self] at hout
      cases m with
      | handshake f =>
        rcases ttSessionFeed_handshake ((h.side _).frames _ hmem) (w.sess i) (envs i) ρ
          ttFrameDataMax with ⟨-, hs⟩ | ⟨-, hs⟩
        · rw [RelFrame.frame, hs.sent] at hout
          exact absurd he hout
        · rw [RelFrame.frame, hs.sent] at hout
          exact absurd he hout
      | data f key t' =>
        have hsent : (ttSessionFeed C (w.sess i) (envs i) ρ f ttFrameDataMax).session.rel.sent =
            (w.sess i).rel.sent := by
          have htag : t' ∈ tagsOf (w.net !i) := mem_tagsOf.mpr ⟨f, key, hmem⟩
          obtain ⟨d, hp, hfeed⟩ := feed_data (s := w.sess i) ((h.side _).frames _ hmem)
            ((h.side _).tag t' htag).2.2 (envs i) ρ
          rw [hfeed]
          exact feedData_sent (s := { w.sess i with lastIn := f }) (h.side i).mark hp ρ _
        rw [RelFrame.frame, hsent] at hout
        exact absurd he hout
      | control f type root a b =>
        obtain ⟨-, hs | ⟨d, payload, rfl | rfl, hdec, hs⟩⟩ :=
          feed_control (s := w.sess i) ((h.side _).frames _ hmem) (envs i) ρ
        · rw [RelFrame.frame, hs] at hout
          exact absurd he hout
        · rw [RelFrame.frame, hs] at hout
          exact h.evicted hC hmem (hideal _ hm).1 hdec he hout ht hg hn
        · rw [RelFrame.frame, hs] at hout
          exact absurd he hout
  · rintro i ρ rfl hack t ht hg hn
    obtain ⟨hring, hmark⟩ := hsafe.2 hack
    have h1 := ((h.side _).tag t ht).2.1
    have hcov := (h.side i).covered hack.1 t.seq h1 (by omega)
    rw [hring] at hcov
    have hlog := hcov.resolve_right (by simp)
    rw [← Bool.not_not i]
    refine h.same_text (i := !i) ?_ ?_ ht hg rfl
    · rw [Bool.not_not]
      exact ((h.side i).live hack.1).1
    · rw [Bool.not_not]
      exact hlog

end RelInv

theorem relRun_take_succ (C : Crypto) (envs : Bool → TTE2EEEnv) {ops : List RelOp} {k : ℕ}
    {op : RelOp} (h : ops[k]? = some op) :
    relRun C envs (ops.take (k + 1)) = relStep C envs (relRun C envs (ops.take k)) op := by
  rw [relRun, List.take_add_one, h, List.foldl_append]
  rfl

/-- In every run of two peers whose steps are safe, ACKs evict and claim only opened texts. -/
theorem ack_sound (hC : C.AeadCorrect) (ops : List RelOp)
    (hideal : ∀ k op, ops[k]? = some op → IdealStep C envs (relRun C envs (ops.take k)) op)
    (hsafe : ∀ k op, ops[k]? = some op → AckSafe (relRun C envs (ops.take k)) op)
    (k : ℕ) (op : RelOp) (hk : ops[k]? = some op) :
    AckSound C envs (relRun C envs (ops.take k)) op := by
  have hinv : ∀ n ≤ k, RelInv C (relRun C envs (ops.take n)) := by
    intro n hn
    induction n with
    | zero => exact RelInv.fresh
    | succ n ih =>
      have hlt : n < ops.length := by
        have := (List.getElem?_eq_some_iff.mp hk).1
        omega
      have hop : ops[n]? = some ops[n] := List.getElem?_eq_getElem hlt
      rw [relRun_take_succ C envs hop]
      exact (ih (by omega)).step hC _ (hideal n _ hop) (hsafe n _ hop)
  exact (hinv k le_rfl).sound hC op (hideal k op hk) (hsafe k op hk)

namespace Instance

def relEnvs (i : Bool) : TTE2EEEnv := if i then bobEnv else aliceEnv

def twoTexts : List RelOp :=
  [.start false (draws 1) 0, .feed true 0 (draws 2), .reply true (draws 3), .feed false 0 (draws 4),
    .send false [1] (draws 5), .send false [2] (draws 6)]

def gapOps : List RelOp :=
  twoTexts ++ [.feed true 2 (draws 7), (.relPoll true fun _ => draws 8), .feed false 1 (draws 9)]

def gapWorld : RelWorld := relRun crypto relEnvs (gapOps.take 8)

theorem gap_ack_evicts :
    (∀ k < 9, ∀ op ∈ gapOps[k]?,
      IdealStep crypto relEnvs (relRun crypto relEnvs (gapOps.take k)) op) ∧
    (∃ e ∈ (gapWorld.sess false).rel.sent.entries, e.data = [1] ∧
      e ∉ ((relStep crypto relEnvs gapWorld
        (.feed false 1 (draws 9))).sess false).rel.sent.entries) ∧
    (∀ t ∈ gapWorld.log true, t.text ≠ [1]) ∧
    ¬ AckSound crypto relEnvs gapWorld (.feed false 1 (draws 9)) := by
  have hideal : ∀ k < 9, ∀ op ∈ gapOps[k]?,
      IdealStep crypto relEnvs (relRun crypto relEnvs (gapOps.take k)) op := by decide +kernel
  have hevict : ∃ e ∈ (gapWorld.sess false).rel.sent.entries,
      (e.data = [1] ∧ e ∉ ((relStep crypto relEnvs gapWorld
        (.feed false 1 (draws 9))).sess false).rel.sent.entries) ∧
      ∃ t ∈ tagsOf (gapWorld.net false), relGen crypto t.root = e.gen ∧
        t.seq = e.seq ∧ t ∉ gapWorld.log true := by decide +kernel
  refine ⟨hideal, ?_, by decide +kernel, fun h => ?_⟩
  · obtain ⟨e, he, hout, -⟩ := hevict
    exact ⟨e, he, hout⟩
  · obtain ⟨e, he, ⟨-, hout⟩, t, ht, hg, hn, hlog⟩ := hevict
    have hin := (h.1 false 1 (draws 9) rfl e he hout).2 t ht hg hn
    rw [Bool.not_false] at hin
    exact hlog hin

def lateOps : List RelOp :=
  twoTexts ++ [.feed true 2 (draws 7), .feed true 1 (draws 8), .relPoll true fun _ => draws 9,
    .feed false 1 (draws 10)]

end Instance

theorem ack_sound_late :
    AckSound Instance.crypto Instance.relEnvs
      (relRun Instance.crypto Instance.relEnvs (Instance.lateOps.take 9))
      (.feed false 1 (Instance.draws 10)) := by
  have hops : ∀ k < 10, ∀ op ∈ Instance.lateOps[k]?,
      IdealStep Instance.crypto Instance.relEnvs
        (relRun Instance.crypto Instance.relEnvs (Instance.lateOps.take k)) op ∧
      AckSafe (relRun Instance.crypto Instance.relEnvs (Instance.lateOps.take k)) op := by
    decide +kernel
  have hlt {k : ℕ} {op : RelOp} (hop : Instance.lateOps[k]? = some op) : k < 10 :=
    (List.getElem?_eq_some_iff.mp hop).1
  exact ack_sound Instance.aeadCorrect Instance.lateOps
    (fun k op hop => (hops k (hlt hop) op hop).1) (fun k op hop => (hops k (hlt hop) op hop).2) 9 _ rfl

end TkTox
