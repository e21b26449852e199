import Mathlib.Data.List.TakeWhile
import TkTox.FeedCases
import TkTox.Instance

/-!
What a rejected DATA or control frame leaves behind. The key of an out-of-order frame is taken
from the ring before the frame is opened and goes back when it does not open, but to the end of
the ring: the ring keeps its keys and not always their order, and the order decides which of them
a later gap evicts.
-/

namespace TkTox

/-- The two sessions differ at most in the replay copy and the request for a re-send. -/
def Hygienic (s s' : TTSession) : Prop :=
  ∃ last pending gen first, s' = { s with
    lastIn := last
    rel := { s.rel with
      resendReqPending := pending, resendReqGen := gen, resendReqFrom := first } }

theorem Hygienic.recv {s s' : TTSession} (h : Hygienic s s') : s'.recv = s.recv := by
  obtain ⟨last, pending, gen, first, rfl⟩ := h
  rfl

theorem hygienic_refl (s : TTSession) (last : Bytes) : Hygienic s { s with lastIn := last } :=
  ⟨last, s.rel.resendReqPending, s.rel.resendReqGen, s.rel.resendReqFrom, rfl⟩

theorem hygienic_lastIn {s s' : TTSession} {last : Bytes} :
    Hygienic { s with lastIn := last } s' ↔ Hygienic s s' := Iff.rfl

def KeyNewest (r : TTRatchet) (seq : ℕ) : Prop :=
  ∀ e ∈ r.skipped.dropWhile fun e => e.1 != seq,
    (r.skipped.dropWhile fun e => e.1 != seq).head? = some e

instance (r : TTRatchet) (seq : ℕ) : Decidable (KeyNewest r seq) :=
  inferInstanceAs (Decidable (∀ e ∈ r.skipped.dropWhile _, _))

/-- The rejection of a frame with this header does not touch the ring, or puts the key back where
it was. -/
def RejectsClean (s : TTSession) (d : TTFrameDesc) : Prop :=
  d.type = some .ack ∨ d.type = some .resend ∨
    (d.hdr.length ≠ 0 ∧ d.hdr.length ≠ ttHdrDataRekey ∧ d.hdr.length ≠ ttHdrDataKempub) ∨
    s.recv.seq ≤ d.seq ∨ KeyNewest s.recv d.seq

instance (s : TTSession) (d : TTFrameDesc) : Decidable (RejectsClean s d) :=
  inferInstanceAs (Decidable (_ ∨ _ ∨ _ ∨ _ ∨ _))

section

variable {C : Crypto} {r r' : TTRatchet} {seq : ℕ} {key : Key}

theorem skippedTake_split (h : skippedTake r seq = some (key, r')) :
    ∃ pre post, r.skipped = pre ++ (seq, key) :: post ∧ (∀ e ∈ pre, (e.1 != seq) = true) ∧
      r' = { r with skipped := pre ++ post } := by
  obtain ⟨e, he, hr⟩ := Option.map_eq_some_iff.mp h
  obtain ⟨hp, pre, post, hl, hpre⟩ := List.find?_eq_some_iff_append.mp he
  have hseq : e.1 = seq := by simpa using hp
  obtain ⟨rfl, rfl⟩ := Prod.mk.inj hr
  subst hseq
  refine ⟨pre, post, hl, ?_, ?_⟩
  · intro x hx
    simpa using hpre x hx
  · rw [hl, List.eraseP_append_right _ (fun x hx => by simpa using hpre x hx)]
    simp

theorem append_singleton_eq_cons_iff {α : Type*} {l : List α} {a : α} :
    l ++ [a] = a :: l ↔ ∀ b ∈ l, b = a := by
  induction l with
  | nil => simp
  | cons b l ih =>
    rw [List.cons_append, List.forall_mem_cons, ← ih]
    constructor
    · intro h
      obtain ⟨rfl, h⟩ := List.cons.inj h
      exact ⟨rfl, h⟩
    · rintro ⟨rfl, h⟩
      rw [h]

theorem skippedAdd_take_iff (hr : r.skipped.length ≤ ttSessionSkippedMax)
    (h : skippedTake r seq = some (key, r')) : skippedAdd r' seq key = r ↔ KeyNewest r seq := by
  obtain ⟨pre, post, hl, hpre, rfl⟩ := skippedTake_split h
  have hlen : ¬(pre ++ post).length ≥ ttSessionSkippedMax := by
    rw [hl] at hr
    simp only [List.length_append, List.length_cons, ttSessionSkippedMax] at hr ⊢
    omega
  have hdrop : (r.skipped.dropWhile fun e => e.1 != seq) = (seq, key) :: post := by
    rw [hl, List.dropWhile_append_of_pos hpre, List.dropWhile_cons_of_neg (by simp)]
  have hring : skippedAdd { r with skipped := pre ++ post } seq key = r ↔
      pre ++ post ++ [(seq, key)] = r.skipped := by
    rw [skippedAdd, if_neg hlen]
    constructor
    · intro h
      exact congrArg TTRatchet.skipped h
    · intro h
      rw [h]
  rw [hring, hl, List.append_assoc, List.append_cancel_left_eq, append_singleton_eq_cons_iff,
    KeyNewest, hdrop, List.forall_mem_cons, List.head?_cons]
  simp only [Option.some.injEq, true_and]
  exact forall₂_congr fun e _ => eq_comm

theorem keyNewest_of_not_taken (h : skippedTake r seq = none) : KeyNewest r seq := by
  have hnone : ∀ e ∈ r.skipped, (e.1 != seq) = true := by
    rw [skippedTake, Option.map_eq_none_iff, List.find?_eq_none] at h
    intro e he
    simpa using h e he
  have hdrop : (r.skipped.dropWhile fun e => e.1 != seq) = [] :=
    List.dropWhile_eq_nil_iff.mpr hnone
  intro e he
  rw [hdrop] at he
  cases he

end

section

variable {C : Crypto} {s : TTSession} {ρ : Draws} {input : Bytes} {d : TTFrameDesc} {cap : ℕ}
  {e : TTE2EEStatus}

theorem dataReject_none (seq : ℕ) (key : Key) : Hygienic s (dataReject C s seq key none) := by
  unfold dataReject
  dsimp only
  split_ifs
  · exact ⟨s.lastIn, true, relGen C s.root, s.recv.seq, rfl⟩
  · exact hygienic_refl s s.lastIn

theorem dataReject_some (seq : ℕ) (key : Key) (r : TTRatchet) :
    Hygienic s (dataReject C s seq key (some r)) ↔ skippedAdd r seq key = s.recv := by
  constructor
  · intro h
    rw [← h.recv]
    unfold dataReject
    dsimp only
    split_ifs <;> rfl
  · intro h
    unfold dataReject
    dsimp only
    rw [h]
    split_ifs
    · exact ⟨s.lastIn, true, relGen C s.root, s.recv.seq, rfl⟩
    · exact hygienic_refl s s.lastIn

theorem feedData_hygienic_iff (ha : s.active = true)
    (hring : s.recv.skipped.length ≤ ttSessionSkippedMax)
    (ht : d.type ≠ some .ack ∧ d.type ≠ some .resend)
    (he : (feedData C s ρ input d cap).ret = .error e) :
    Hygienic s (feedData C s ρ input d cap).session ↔ RejectsClean s d := by
  have hclean : RejectsClean s d ↔
      (d.hdr.length ≠ 0 ∧ d.hdr.length ≠ ttHdrDataRekey ∧ d.hdr.length ≠ ttHdrDataKempub) ∨
        s.recv.seq ≤ d.seq ∨ KeyNewest s.recv d.seq := by
    simp [RejectsClean, ht]
  rw [hclean]
  by_cases hl : d.hdr.length ≠ 0 ∧ d.hdr.length ≠ ttHdrDataRekey ∧ d.hdr.length ≠ ttHdrDataKempub
  · have hs : (feedData C s ρ input d cap).session = s := by
      rw [feedData, if_neg (by simp [ha]), if_pos hl]
    rw [hs]
    exact iff_of_true (hygienic_refl s s.lastIn) (Or.inl hl)
  cases hk : recvKey C s.recv d.seq with
  | error e' =>
    have hs : (feedData C s ρ input d cap).session = s := by
      rw [feedData, if_neg (by simp [ha]), if_neg hl, hk]
    rw [hs]
    refine iff_of_true (hygienic_refl s s.lastIn) (Or.inr ?_)
    by_cases hseq : s.recv.seq ≤ d.seq
    · exact Or.inl hseq
    · refine Or.inr (keyNewest_of_not_taken ?_)
      rw [recvKey, if_neg (by omega), if_neg (by omega)] at hk
      cases htake : skippedTake s.recv d.seq with
      | none => rfl
      | some p =>
        rw [htake] at hk
        cases hk
  | ok p =>
    obtain ⟨key, taken⟩ := p
    cases hd : ttFrameDecode C input key cap with
    | some p =>
      rw [feedData, if_neg (by simp [ha]), if_neg hl, hk] at he
      simp only [hd] at he
      cases he
    | none =>
      have hs : (feedData C s ρ input d cap).session = dataReject C s d.seq key taken := by
        rw [feedData, if_neg (by simp [ha]), if_neg hl, hk]
        simp only [hd]
      rw [hs]
      obtain ⟨rfl, hseq, -⟩ | ⟨r', rfl, hseq, htake⟩ := recvKey_cases hk
      · exact iff_of_true (dataReject_none d.seq key) (Or.inr (Or.inl hseq))
      · rw [dataReject_some, skippedAdd_take_iff hring htake]
        constructor
        · exact fun h => Or.inr (Or.inr h)
        · rintro (h | h | h)
          · exact absurd h hl
          · omega
          · exact h

/-- A rejected DATA or control frame leaves everything but the replay copy and the request for a
re-send exactly when it does not take a key from the middle of the ring. -/
theorem rejected_feed_hygienic_iff {env : TTE2EEEnv} (ha : s.active = true)
    (hring : s.recv.skipped.length ≤ ttSessionSkippedMax) (hp : ttFramePeek input = some d)
    (ht : d.type ≠ some .init ∧ d.type ≠ some .reply)
    (he : (ttSessionFeed C s env ρ input cap).ret = .error e) :
    Hygienic s (ttSessionFeed C s env ρ input cap).session ↔ RejectsClean s d := by
  have hcontrol : ∀ type, d.type = some type → (type = .ack ∨ type = .resend) →
      (feedControl C s type input d).ret = .error e →
      (Hygienic s (feedControl C s type input d).session ↔ RejectsClean s d) := by
    intro type htype hor he
    have hclean : RejectsClean s d := by
      obtain rfl | rfl := hor
      · exact Or.inl htype
      · exact Or.inr (Or.inl htype)
    refine iff_of_true ?_ hclean
    obtain ⟨ret, h⟩ | ⟨-, -, -, d', payload, -, -, h⟩ := feedControl_cases C s input d type
    · rw [h]
      exact hygienic_refl s s.lastIn
    · rw [h] at he
      cases he
  unfold ttSessionFeed at he ⊢
  rw [hp] at he ⊢
  dsimp only at he ⊢
  cases htype : d.type with
  | none =>
    rw [htype] at he
    exact feedData_hygienic_iff ha hring (by simp [htype]) he
  | some type =>
    rw [htype] at he
    cases type with
    | init => exact absurd htype ht.1
    | reply => exact absurd htype ht.2
    | ack => exact hcontrol .ack htype (Or.inl rfl) he
    | resend => exact hcontrol .resend htype (Or.inr rfl) he
    | data =>
      exact hygienic_lastIn.symm.trans
        (feedData_hygienic_iff (s := { s with lastIn := input }) ha hring (by simp [htype]) he)

end

namespace Instance

def sendThree : TTSession × Bytes × Bytes × Bytes :=
  let a := ttSessionSend crypto alice [1] ttFrameMax (draws 5)
  let b := ttSessionSend crypto a.1 [2] ttFrameMax (draws 6)
  let c := ttSessionSend crypto b.1 [3] ttFrameMax (draws 7)
  (c.1, okBytes a.2, okBytes b.2, okBytes c.2)

def bobAhead : TTSession :=
  (ttSessionFeed crypto bob bobEnv (draws 8) sendThree.2.2.2 ttFrameDataMax).session

def corrupt (f : Bytes) : Bytes := f.dropLast ++ [f.getLastD 0 + 1]

def feedCorrupt (f : Bytes) : FeedResult :=
  ttSessionFeed crypto bobAhead bobEnv (draws 9) (corrupt f) ttFrameDataMax

theorem rejected_feed_hygienic_newest :
    (feedCorrupt sendThree.2.2.1).ret = .error .decodeFail ∧
      Hygienic bobAhead (feedCorrupt sendThree.2.2.1).session := by
  have h : ((ttFramePeek (corrupt sendThree.2.2.1)).any fun d =>
      decide ((d.type ≠ some .init ∧ d.type ≠ some .reply) ∧ RejectsClean bobAhead d)) = true := by
    decide +kernel
  obtain ⟨d, hp, hd⟩ := Option.any_eq_true _ _ |>.mp h
  obtain ⟨ht, hc⟩ := of_decide_eq_true hd
  have he : (feedCorrupt sendThree.2.2.1).ret = .error .decodeFail := by decide +kernel
  exact ⟨he, (rejected_feed_hygienic_iff (by decide +kernel) (by decide +kernel) hp ht he).mpr hc⟩

theorem corrupt_first_reorders :
    bobAhead.active = true ∧ (feedCorrupt sendThree.2.1).ret = .error .decodeFail ∧
      bobAhead.recv.skipped.map Prod.fst = [1, 2] ∧
      (feedCorrupt sendThree.2.1).session.recv.skipped.map Prod.fst = [2, 1] ∧
      ¬Hygienic bobAhead (feedCorrupt sendThree.2.1).session := by
  refine ⟨by decide +kernel, by decide +kernel, by decide +kernel, by decide +kernel, fun h => ?_⟩
  have hr := congrArg (fun r => r.skipped.map Prod.fst) h.recv
  revert hr
  decide +kernel

end Instance

end TkTox
