import TkTox.FeedCases
import TkTox.Instance

/-!
What a refused INIT or REPLY leaves behind. A REPLY is refused before anything is written;
an INIT is not: the session yields before the seal is opened, and the responder scratch is
drawn before the DH legs are tried.
-/

namespace TkTox

variable {C : Crypto} {s : TTSession} {env : TTE2EEEnv} {ρ : Draws} {input : Bytes}
  {d : TTFrameDesc} {peerPk : Key}

/-- The condition under which a refusal changes nothing: a yielding session meets only an
acceptable INIT, and an authentic INIT carries no rejected point. -/
def rejectsCleanly (C : Crypto) (s : TTSession) (env : TTE2EEEnv) (ρ : Draws) (input : Bytes)
    (d : TTFrameDesc) : Prop :=
  initReachesOpen C s env input d →
    if s.iAmInitiator && (s.active || s.initPending) then
      yieldsTo s env d = true →
        initAuthentic C env input d ∧ initLegsAccepted C env ρ (hdrIk d.hdr) d
    else initAuthentic C env input d → initLegsAccepted C env ρ (hdrIk d.hdr) d

def refusedUnchanged (C : Crypto) (s : TTSession) (env : TTE2EEEnv) (ρ : Draws) (input : Bytes)
    (ptCap : ℕ) : Prop :=
  ∀ e, (ttSessionFeed C s env ρ input ptCap).ret = .error e →
    (ttSessionFeed C s env ρ input ptCap).session = s

theorem feedReply_refused {e : TTE2EEStatus} (hp : ttFramePeek input = some d)
    (h : (feedReply C s env ρ input d).ret = .error e) :
    (feedReply C s env ρ input d).session = s := by
  rcases feedReply_cases C s env ρ hp with
    ⟨r, hr⟩ | ⟨-, -, -, -, f, -, hr⟩
  · rw [hr]
  · rw [hr] at h
    cases h

theorem yielded_refusal_changes (hp : ttFramePeek input = some d) (hi : s.iAmInitiator = true)
    (hbad : ¬ (initAuthentic C env input d ∧ initLegsAccepted C env ρ peerPk d)) :
    ∃ e, (acceptInit C (reestablishPreserve s) env peerPk ρ input d).ret = .error e ∧
      (acceptInit C (reestablishPreserve s) env peerPk ρ input d).session ≠ s := by
  have hne (t : TTSession) (ht : t.iAmInitiator = false) : t ≠ s := by
    rintro rfl
    rw [hi] at ht
    cases ht
  rcases acceptInit_cases C (reestablishPreserve s) env ρ peerPk hp with ⟨-, e, he⟩ | ⟨-, -, key, he⟩ | ⟨ha, key, f, hl, -⟩
  · exact ⟨e, by rw [he], by rw [he]; exact hne _ rfl⟩
  · exact ⟨.badId, by rw [he], by rw [he]; exact hne _ rfl⟩
  · exact absurd ⟨ha, by rw [initLegsAccepted, hl]; rfl⟩ hbad

theorem feedInit_refused_iff (hp : ttFramePeek input = some d)
    (hfresh : ρ.eph1 ≠ s.ephB1Sk) (hr : initReachesOpen C s env input d) :
    (∀ e, (feedInit C s env ρ input d).ret = .error e →
      (feedInit C s env ρ input d).session = s) ↔ rejectsCleanly C s env ρ input d := by
  have hcond : rejectsCleanly C s env ρ input d ↔
      if s.iAmInitiator && (s.active || s.initPending) then
        yieldsTo s env d = true →
          initAuthentic C env input d ∧ initLegsAccepted C env ρ (hdrIk d.hdr) d
      else initAuthentic C env input d → initLegsAccepted C env ρ (hdrIk d.hdr) d :=
    ⟨fun h => h hr, fun h _ => h⟩
  rw [hcond, feedInit_reaches hr]
  by_cases hi : (s.iAmInitiator && (s.active || s.initPending)) = true
  · simp only [if_pos hi]
    by_cases hy : yieldsTo s env d = true
    · simp only [hy, ↓reduceIte, true_imp_iff]
      have hinit : s.iAmInitiator = true := (Bool.and_eq_true_iff.mp hi).1
      constructor
      · intro h
        by_contra hbad
        obtain ⟨e, he, hne⟩ := yielded_refusal_changes hp hinit hbad
        exact hne (h e he)
      · intro hgood e he
        rcases acceptInit_cases C (reestablishPreserve s) env ρ (hdrIk d.hdr) hp with ⟨hna, -⟩ | ⟨-, hnl, -⟩ | ⟨-, key, f, -, hok⟩
        · exact absurd hgood.1 hna
        · exact absurd hgood.2 hnl
        · rw [hok] at he
          cases he
    · simp [hy]
  · simp only [if_neg hi]
    rcases acceptInit_cases C s env ρ (hdrIk d.hdr) hp with
      ⟨hna, e, he⟩ | ⟨ha, hnl, key, he⟩ | ⟨ha, key, f, hl, hok⟩
    · simp [he, hna]
    · simp only [he, ha, hnl, true_imp_iff, iff_false]
      intro h
      have hs := congrArg TTSession.ephB1Sk (h .badId rfl)
      exact hfresh hs
    · simp [hok, initLegsAccepted, hl]

/-- A refused handshake frame leaves the session exactly as it was, and an INIT that fails
authentication tears nothing down, precisely under `rejectsCleanly`. -/
theorem refused_handshake_unchanged_iff (ptCap : ℕ) (hp : ttFramePeek input = some d)
    (ht : d.type = some .init ∨ d.type = some .reply) (hfresh : ρ.eph1 ≠ s.ephB1Sk) :
    refusedUnchanged C s env ρ input ptCap ↔ rejectsCleanly C s env ρ input d := by
  unfold refusedUnchanged
  rcases ht with ht | ht
  · simp only [ttSessionFeed, hp, ht]
    by_cases hr : initReachesOpen C s env input d
    · exact feedInit_refused_iff hp hfresh hr
    · exact iff_of_true (fun _ _ => (feedInit_early ht hr).1) fun h => absurd h hr
  · simp only [ttSessionFeed, hp, ht]
    refine iff_of_true (fun e => feedReply_refused hp) ?_
    rintro ⟨hi, -⟩
    rw [ht] at hi
    cases hi

def forgedInit (ik : Key) : Bytes :=
  frameHead .init 0 ttFrameFlagKem (Blob.zero 24).bytes (ik.bytes ++ List.replicate 1222 7) ++
    List.replicate 16 0

theorem ttFramePeek_forgedInit (ik : Key) : ttFramePeek (forgedInit ik) =
    some ⟨some .init, ttFrameFlagKem, 0, (Blob.zero 24).bytes, ik.bytes ++ List.replicate 1222 7,
      0⟩ := by
  have hl : (ik.bytes ++ List.replicate 1222 7).length = 1254 := by
    rw [List.length_append, Blob.bytes_length, List.length_replicate]
  have hn : (Blob.zero 24).bytes.length = 24 := Blob.bytes_length _
  exact ttFramePeek_layout (by decide) (by decide) hn (by rw [hl]; decide) (by decide)
    (by rw [hl, hn]; decide)

namespace Instance

def establishedInitiator : TTSession :=
  { TTSession.zero with active := true, iAmInitiator := true }

theorem forged_init_tears_down :
    (ttSessionFeed crypto establishedInitiator aliceEnv (draws 0)
      (forgedInit (base bobSk)) ttFrameDataMax).ret = .error .decodeFail ∧
    (ttSessionFeed crypto establishedInitiator aliceEnv (draws 0)
      (forgedInit (base bobSk)) ttFrameDataMax).session.active = false ∧
    ¬ refusedUnchanged crypto establishedInitiator aliceEnv (draws 0)
      (forgedInit (base bobSk)) ttFrameDataMax := by
  have hret : (ttSessionFeed crypto establishedInitiator aliceEnv (draws 0)
      (forgedInit (base bobSk)) ttFrameDataMax).ret = .error .decodeFail := by decide +kernel
  have hact : (ttSessionFeed crypto establishedInitiator aliceEnv (draws 0)
      (forgedInit (base bobSk)) ttFrameDataMax).session.active = false := by decide +kernel
  refine ⟨hret, hact, fun h => ?_⟩
  have hs := congrArg TTSession.active (h _ hret)
  rw [hact] at hs
  exact absurd hs (by decide)

end Instance

theorem refused_handshake_unchanged_responder :
    (ttSessionFeed Instance.crypto Instance.bob Instance.bobEnv (Instance.draws 0)
        (forgedInit (Instance.base Instance.aliceSk)) ttFrameDataMax).ret = .error .decodeFail ∧
      Instance.bob.active = true ∧
      (ttSessionFeed Instance.crypto Instance.bob Instance.bobEnv (Instance.draws 0)
        (forgedInit (Instance.base Instance.aliceSk)) ttFrameDataMax).session = Instance.bob := by
  have hret : (ttSessionFeed Instance.crypto Instance.bob Instance.bobEnv (Instance.draws 0)
      (forgedInit (Instance.base Instance.aliceSk)) ttFrameDataMax).ret = .error .decodeFail := by
    decide +kernel
  have hkeep : refusedUnchanged Instance.crypto Instance.bob Instance.bobEnv (Instance.draws 0)
      (forgedInit (Instance.base Instance.aliceSk)) ttFrameDataMax := by
    refine (refused_handshake_unchanged_iff ttFrameDataMax
      (ttFramePeek_forgedInit (Instance.base Instance.aliceSk)) (Or.inl rfl) (by decide +kernel)).mpr ?_
    intro _
    rw [if_neg (by decide +kernel)]
    rintro ⟨key, r, hkey, hopen⟩
    have hseal : (sealKeyDerive Instance.crypto Instance.bobEnv.selfSk
        (hdrEph1 ((Instance.base Instance.aliceSk).bytes ++ List.replicate 1222 7)) Instance.bobEnv.selfPk).bind
          (fun key => ttFrameDecode Instance.crypto (forgedInit (Instance.base Instance.aliceSk)) key 16) = none := by
      decide +kernel
    rw [hkey, Option.bind_some, hopen] at hseal
    cases hseal
  exact ⟨hret, by decide +kernel, hkeep _ hret⟩

end TkTox
