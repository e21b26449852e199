import TkTox.ChatSteps

/-!
The texts in flight, as the receiving session reads them: fed the packets of the wire one after
the other, it reads the texts of the frames on it and nothing else.
-/

namespace TkTox

variable {C : Crypto} {env : Bool → TTE2EEEnv} {sess : Bool → TTSession} {hs : Bool → List Bytes}
  {fl : Bool → List LinkFrame} {spent : Bool → List KemPk} {started : Bool} {i : Bool}
  {e : TTE2EEEnv} {s t : TTSession} {f : Bytes} {l rest : List Bytes} {texts : List Bytes}

/-- What a session reads from packets that come in one after the other, each answered where it
has to be. -/
def readTexts (C : Crypto) (env : TTE2EEEnv) : (ℕ → Draws) → TTSession → List Bytes → List Bytes
  | _, _, [] => []
  | ρ, s, f :: rest =>
    handedOut (okBytes (ttSessionFeed C s env (ρ 0) f ttFrameDataMax).ret) ++
      readTexts C env (fun n => ρ (n + 2)) (receive C s env (ρ 0) (ρ 1) f).1 rest

theorem receive_settled (hd : (ttSessionFeed C s e (ρ : Draws) f ttFrameDataMax).session.replyDue = false)
    (σ : Draws) : (receive C s e ρ σ f).1 = (ttSessionFeed C s e ρ f ttFrameDataMax).session := by
  simp only [receive, hd, Bool.false_eq_true, ↓reduceIte]

theorem readTexts_same (hd : s.replyDue = false)
    (hl : ∀ f ∈ l, ∀ ρ, ∃ b, ttSessionFeed C s e ρ f ttFrameDataMax = ⟨s, .ok [], b⟩)
    (hrest : ∀ ρ, readTexts C e ρ s rest = texts) (ρ : ℕ → Draws) :
    readTexts C e ρ s (l ++ rest) = texts := by
  induction l generalizing ρ with
  | nil => exact hrest ρ
  | cons f l ih =>
    obtain ⟨b, hf⟩ := hl f (List.mem_cons_self ..) (ρ 0)
    have hsame : (receive C s e (ρ 0) (ρ 1) f).1 = s := by
      rw [receive_settled (by rw [hf]; exact hd), hf]
    rw [List.cons_append, readTexts, hf, hsame, ih fun g hg => hl g (List.mem_cons_of_mem f hg)]
    rfl

theorem readTexts_link (hC : C.AeadCorrect) {r : TTSession} {fr : List LinkFrame} {q' : List Sent}
    {used : List KemPk} (hk : RekeyKeys C r) (hd : r.replyDue = false)
    (h : LinkInv C s r (linkSents fr) q' used) (ha : AcksOn C r.root fr)
    (hne : ∀ b ∈ linkTexts fr, b ≠ []) (ρ : ℕ → Draws) :
    readTexts C e ρ r (fr.map LinkFrame.frame) = linkTexts fr := by
  induction fr generalizing r ρ with
  | nil => rfl
  | cons x fr ih =>
    have htail (hroot : Key) (hr : hroot = r.root) : AcksOn C hroot fr := by
      rw [hr]
      exact fun g hg => ha g (List.mem_cons_of_mem x hg)
    cases x with
    | text m =>
      rw [linkSents_text] at h
      obtain ⟨hret, hspec⟩ := ttSessionFeed_spec hC hk h.sync.1 (h.valid m (List.mem_cons_self ..)) e (ρ 0)
      obtain ⟨-, hshake, -⟩ := ttSessionFeed_live hC hk h.sync.1 e (ρ 0)
      have hdue := hshake.replyDue.trans hd
      have hm : handedOut (okBytes (.ok m.text)) = [m.text] :=
        if_neg (hne m.text (by rw [linkTexts_text]; exact List.mem_cons_self ..))
      rw [List.map_cons, LinkFrame.frame, readTexts, hret, hm, receive_settled hdue, linkTexts_text,
        ih hspec.keys hdue (h.deliver hspec) (htail _ hshake.root) fun b hb => hne b ?_]
      · rfl
      · rw [linkTexts_text]
        exact List.mem_cons_of_mem _ hb
    | ack g =>
      obtain ⟨sent, hf⟩ := ttSessionFeed_ack hC hk.active hk.reliable (ha g (List.mem_cons_self ..)) e (ρ 0)
        ttFrameDataMax
      have hdue : (ttSessionFeed C r e (ρ 0) g ttFrameDataMax).session.replyDue = false := by
        rw [hf]
        exact hd
      rw [List.map_cons, LinkFrame.frame, readTexts, receive_settled hdue, hf, linkTexts_ack]
      change [] ++ TkTox.readTexts C e _ _ _ = _
      rw [List.nil_append]
      apply ih (r := { r with rel := { r.rel with sent := sent } })
      · exact ⟨hk.active, hk.reliable, hk.haveKem, hk.eph, hk.kem, hk.seq_lt⟩
      · exact hd
      · exact h.congr rfl rfl rfl rfl
      · exact htail _ rfl
      · exact hne

variable {ea eb : TTE2EEEnv}

theorem readTexts_again (hC : C.AeadCorrect) (hD : C.DhCommutes) (hF : Friends C ea eb)
    (ha : t.active = true) (hr : t.iAmInitiator = false) (hd : t.replyDue = false)
    (hl : ∀ f ∈ l, ∃ s₀, PendingKeys C s₀ eb.selfPk ∧ IsInit C s₀ ea f)
    (hrest : ∀ ρ, readTexts C eb ρ t rest = texts) (ρ : ℕ → Draws) :
    readTexts C eb ρ t (l ++ rest) = texts := by
  apply readTexts_same hd ?_ hrest
  intro f hf ρ
  obtain ⟨s₀, hkeys, hinit⟩ := hl f hf
  exact ⟨true, feed_again hC hD hF hkeys hinit ha hr⟩

theorem readTexts_inits (hC : C.AeadCorrect) (hD : C.DhCommutes) (hF : Friends C ea eb)
    (hs : PendingKeys C s eb.selfPk) (hl : ∀ f ∈ l, IsInit C s ea f) (ha : t.active = false)
    (hy : t.iAmInitiator = true → t.initPending = true → ea.selfPk.bytes < eb.selfPk.bytes)
    (hlossy : t.lossy = false) (hp : t.rekey.peerHave = false) (ρ : ℕ → Draws) :
    readTexts C eb ρ t l = [] := by
  cases l with
  | nil => rfl
  | cons f l =>
    obtain ⟨-, hret, ⟨root, hn⟩, -⟩ := receive_init (ρ := ρ 0) (σ := ρ 1) hC hD hF hs
      (hl f (List.mem_cons_self ..)) ha hy hlossy hp
    have hrest := readTexts_again hC hD hF hn.est.active hn.est.role hn.answered
      (fun g hg => ⟨s, hs, hl g (List.mem_cons_of_mem f hg)⟩) (fun ρ => (rfl : readTexts C eb ρ _ [] = []))
    rw [readTexts, hret, ← List.append_nil l, hrest]
    rfl

theorem readTexts_ignored (hF : Friends C ea eb) {p : Key} (ht : PendingSession C t p)
    (hl : ∀ f ∈ l, ¬ ea.selfPk.bytes < eb.selfPk.bytes ∧ ∃ s₀, IsInit C s₀ ea f)
    (hrest : ∀ ρ, readTexts C eb ρ t rest = texts) (ρ : ℕ → Draws) :
    readTexts C eb ρ t (l ++ rest) = texts := by
  apply readTexts_same ht.replyDue ?_ hrest
  intro f hf ρ
  obtain ⟨hlow, s₀, hinit⟩ := hl f hf
  exact ⟨false, feed_ignored hF hinit ht hlow⟩

theorem PairPhase.readTexts (hC : C.AeadCorrect) (hD : C.DhCommutes) (hK : C.KemCorrect)
    (hF : ∀ i, Friends C (env i) (env !i)) (h : PairPhase C env sess hs fl spent started)
    (hl : ∀ j, (sess j).lossy = false) (hp : ∀ j, (sess j).active = false → (sess j).rekey.peerHave = false)
    (hne : ∀ j, ∀ b ∈ linkTexts (fl j), b ≠ []) (i : Bool) (ρ : ℕ → Draws) :
    TkTox.readTexts C (env !i) ρ (sess !i) (hs i ++ (fl i).map LinkFrame.frame) = linkTexts (fl i) := by
  have hnil {e : TTE2EEEnv} {s : TTSession} (ρ : ℕ → Draws) : TkTox.readTexts C e ρ s [] = [] := rfl
  have hF' (k : Bool) : Friends C (env !k) (env k) := by
    have := hF !k
    rwa [Bool.not_not] at this
  cases h with
  | opening stash inactive phase empty =>
    rw [empty i, List.map_nil, List.append_nil, linkTexts_nil]
    cases phase with
    | idle idle wire started =>
      rw [show hs i = [] from wire i]
      rfl
    | one k pend other nonempty inits wire =>
      rcases eq_or_eq_not k i with rfl | rfl
      · apply readTexts_inits hC hD (hF i) pend.keys inits (inactive !i) ?_ (hl _) (hp _ (inactive _))
        intro hrole
        rw [show (sess !i).iAmInitiator = false from other.role] at hrole
        cases hrole
      · rw [show hs (!k) = [] from wire]
        rfl
    | both k lower pend pend' nonempty inits inits' =>
      rcases eq_or_eq_not k i with rfl | rfl
      · exact readTexts_inits hC hD (hF i) pend.keys inits (inactive !i) (fun _ _ => lower) (hl _)
          (hp _ (inactive _)) ρ
      · rw [Bool.not_not, ← List.append_nil (hs !k)]
        exact readTexts_ignored (hF' k) pend (fun f hf => ⟨List.lt_asymm lower, _, inits' f hf⟩) hnil ρ
    | answered k old reply pend answer inits wire inits' =>
      obtain ⟨_, _, -, -, hest⟩ := answer.root
      have hno := inactive !k
      rw [show (sess !k).active = true from hest.active] at hno
      cases hno
    | done k root initiator responder due inits wire =>
      have hno := inactive k
      rw [show (sess k).active = true from initiator.active] at hno
      cases hno
  | answered k old reply t pend answer same keys inits wire inits' empty acks link =>
    obtain ⟨_, _, -, -, hest⟩ := answer.root
    rcases eq_or_eq_not k i with rfl | rfl
    · rw [empty, List.map_nil, linkTexts_nil]
      exact readTexts_again hC hD (hF i) keys.active (same.role.trans hest.role)
        (same.replyDue.trans answer.replyDue) (fun f hf => ⟨_, pend.keys, inits f hf⟩) hnil ρ
    · rw [wire, Bool.not_not, List.append_assoc]
      apply readTexts_ignored (hF' k) pend fun f hf =>
        ⟨List.lt_asymm (inits' f hf).1, (inits' f hf).2⟩
      intro ρ
      obtain ⟨-, hret, hn, -⟩ := receive_answer (ρ := ρ 0) (σ := ρ 1) hC hD hK (hF k) pend answer (hl k)
        (hp k pend.active)
      obtain ⟨used, hinv, -⟩ := link _ (same.root ▸ hn)
      have hlink := hinv.link !k
      have hkeys := hinv.keys k
      simp only [Bool.not_not, Function.update_self] at hlink hkeys
      rw [List.singleton_append, TkTox.readTexts, hret]
      refine (readTexts_link hC hkeys hn.answered hlink ?_ (hne _) _)
      rw [hn.est.root_eq, same.root.symm]
      exact acks
  | live k root inits wire responder notPending due roots acks link =>
    obtain ⟨used, hinv, -⟩ := link
    have hread (j : Bool) (ρ : ℕ → Draws) :
        TkTox.readTexts C (env !j) ρ (sess !j) ((fl j).map LinkFrame.frame) = linkTexts (fl j) := by
      refine readTexts_link hC (hinv.keys _) (due _) (hinv.link j) ?_ (hne j) ρ
      rw [roots]
      exact acks j
    rcases eq_or_eq_not k i with rfl | rfl
    · exact readTexts_again hC hD (hF i) (hinv.keys _).active responder (due _) inits (hread i) ρ
    · rw [wire, List.nil_append]
      exact hread _ ρ

theorem PairInv.reads (hC : C.AeadCorrect) (hD : C.DhCommutes) (hK : C.KemCorrect) {env : Bool → ChatEnv}
    {w : ChatPair} (hJ : Joined C env) (h : PairInv C env w hs fl) (i : Bool) (ρ : ℕ → Draws) :
    readTexts C (env !i).ident ρ (w.sess !i) (w.wire i) = linkTexts (fl i) := by
  rw [h.wire]
  exact h.phase.readTexts hC hD hK hJ.friends (fun j => (h.chats j).reliable)
    (fun j => (h.chats j).unpublished) h.texts i ρ

end TkTox
