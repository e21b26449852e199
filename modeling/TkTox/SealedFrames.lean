import TkTox.ChatEngine
import TkTox.SendEvents

/-!
The frames a session hands out. A text leaves only in a DATA frame, sealed under the next key of the
sending chain; handshake and control frames carry none.
-/

namespace TkTox

variable {C : Crypto} {ident : TTE2EEEnv} {s t u : TTSession} {ρ : Draws} {f : Bytes} {text : Option Bytes}

def SessionOp.isFeed : SessionOp → Bool
  | .feed _ _ _ _ => true
  | _ => false

/-- What the chat engine does to a session in one call, behind the frame that was fed to it. -/
inductive SessionMoves (C : Crypto) (s : TTSession) : TTSession → Prop
  | refl : SessionMoves C s s
  | call {t : TTSession} (op : SessionOp) (hop : op.isFeed = false) :
      SessionMoves C s t → SessionMoves C s (sessionStep C t op)
  -- a re-send that does not encode is left, and the next message is tried
  | emit {t : TTSession} (text : TTSentBuf → Bytes) (cap : ℕ) (b : Bool) (ρ : Draws) :
      SessionMoves C s t → SessionMoves C s (emitFrame C t text cap b ρ).1
  | notified {t : TTSession} : SessionMoves C s t → SessionMoves C s { t with noSessionNotified := true }

theorem SessionMoves.trans (h : SessionMoves C s t) (h' : SessionMoves C t u) : SessionMoves C s u := by
  induction h' with
  | refl => exact h
  | call op hop _ ih => exact ih.call op hop
  | emit text cap b ρ _ ih => exact ih.emit text cap b ρ
  | notified _ ih => exact ih.notified

theorem SessionMoves.one (op : SessionOp) (hop : op.isFeed = false) : SessionMoves C s (sessionStep C s op) :=
  SessionMoves.refl.call op hop

/-- The frame `f` is sealed by the session, and `text` is what it carries. -/
inductive Seals (C : Crypto) (ident : TTE2EEEnv) (s : TTSession) (f : Bytes) : Option Bytes → Prop
  | data {text : Bytes} {b : Bool} {ρ : Draws} (active : s.active = true)
      (encoded : ttFrameEncode C ttFrameMax .data s.send.seq (dataFlags C ||| (emitHdr C s b ρ).flags)
        (chainMaterial C s.send.chain).1 (chainMaterial C s.send.chain).2 (emitHdr C s b ρ).hdr text = some f) :
      Seals C ident s f (some text)
  | init {ρ : Draws} (encoded : buildInit C s ident ρ ttFrameMax = some f) : Seals C ident s f none
  | reply {ρ : Draws} (due : s.replyDue = true) (built : (ttSessionReply C s ident ρ ttFrameMax).2 = .ok f) :
      Seals C ident s f none
  | control {type : TTFrameType} {a b : ℕ} {ρ : Draws} (active : s.active = true)
      (built : controlFrame C s type a b ttFrameMax ρ = f) : Seals C ident s f none

/-- A session that `s` becomes in the same call hands out the frame. -/
def HandsOut (C : Crypto) (ident : TTE2EEEnv) (s : TTSession) (f : Bytes) (text : Option Bytes) : Prop :=
  ∃ t, SessionMoves C s t ∧ Seals C ident t f text

theorem Seals.handsOut (h : Seals C ident s f text) : HandsOut C ident s f text := ⟨s, .refl, h⟩

theorem HandsOut.of_moves (hm : SessionMoves C s t) (h : HandsOut C ident t f text) :
    HandsOut C ident s f text := by
  obtain ⟨u, hu, hs⟩ := h
  exact ⟨u, hm.trans hu, hs⟩

theorem emitFrame_seals (ha : s.active = true) (text : TTSentBuf → Bytes) {b : Bool}
    (h : (emitFrame C s text ttFrameMax b ρ).2 = .ok f) : Seals C ident s f (some (text s.rel.sent)) :=
  .data ha (emitFrame_sealed h).2

theorem ttSessionSend_seals {text : Bytes} {x : UInt8}
    (h : (ttSessionSend C s text ttFrameMax ρ).2 = .ok (x :: f)) : Seals C ident s (x :: f) (some text) := by
  rw [ttSessionSend] at h
  by_cases hlen : text.length > ttFrameDataMax
  · rw [if_pos hlen] at h
    cases h
  rw [if_neg hlen] at h
  by_cases ha : s.active = false
  · rw [if_pos ha] at h
    split_ifs at h
    all_goals cases h
  · rw [if_neg ha] at h
    exact emitFrame_seals (Bool.eq_true_of_not_eq_false ha) (fun _ => text) h

theorem ttSessionFlush_seals {x : UInt8} (h : (ttSessionFlush C s ttFrameMax ρ).2 = .ok (x :: f)) :
    ∃ text, Seals C ident s (x :: f) text := by
  rw [ttSessionFlush] at h
  split at h
  · rename_i text rest ha hp
    have hret : (emitFrame C s (fun _ => text) ttFrameMax false ρ).2 = .ok (x :: f) := by
      split at h
      · rename_i heq
        rw [heq]
        exact h
      · rename_i heq
        rw [heq]
        exact h
    exact ⟨_, emitFrame_seals ha (fun _ => text) hret⟩
  · cases h

theorem ttSessionTick_seals {now : ℤ} {x : UInt8}
    (h : (ttSessionTick C s ident ρ now ttFrameMax).2 = .ok (x :: f)) : Seals C ident s (x :: f) none := by
  rw [ttSessionTick] at h
  split_ifs at h
  · cases h
  · cases hb : buildInit C s ident ρ ttFrameMax with
    | none =>
      have hnone : buildInit C { s with initAt := now } ident ρ ttFrameMax = none := hb
      simp [hnone] at h
    | some g =>
      have hsome : buildInit C { s with initAt := now } ident ρ ttFrameMax = some g := hb
      simp only [hsome, Option.getD_some, Except.ok.injEq] at h
      exact .init (h ▸ hb)

theorem ttSessionStart_seals {now : ℤ} (h : (ttSessionStart C s ident ρ now ttFrameMax).2 = .ok f) :
    Seals C ident (ttSessionStart C s ident ρ now ttFrameMax).1 f none := by
  rw [ttSessionStart] at h ⊢
  split at h
  · cases h
  · dsimp only at h ⊢
    split at h
    · cases h
    · split at h
      · cases h
      · rename_i g hb
        cases h
        exact .init hb

theorem relResend_seals (n : ℕ) (ρ : ℕ → Draws) (r : ℕ) (ha : s.active = true) {x : UInt8}
    (h : (relResend C ttFrameMax ρ n r s).2 = x :: f) : ∃ text, HandsOut C ident s (x :: f) text := by
  induction n generalizing r s with
  | zero => cases h
  | succ n ih =>
    rw [relResend] at h
    dsimp only at h
    split_ifs at h
    · exact ih (r + 1) ha h
    · have hact := (emitFrame_pending C s (TTSentBuf.readSlot (sentIdx (s.rel.sent.head + r))
        (s.rel.sent.m (sentIdx (s.rel.sent.head + r))).data.length) ttFrameMax false (ρ r)).1
      have hmove : SessionMoves C s _ := SessionMoves.refl.emit (TTSentBuf.readSlot (sentIdx (s.rel.sent.head + r))
        (s.rel.sent.m (sentIdx (s.rel.sent.head + r))).data.length) ttFrameMax false (ρ r)
      split at h
      · rename_i heq
        cases h
        exact ⟨_, (emitFrame_seals ha _ (congrArg Prod.snd heq)).handsOut⟩
      · rename_i heq
        rw [heq] at hact hmove
        obtain ⟨text, htext⟩ := ih (r + 1) (hact.trans ha) h
        exact ⟨text, htext.of_moves hmove⟩

theorem ttSessionRelPoll_seals {ρ : ℕ → Draws} {x : UInt8}
    (h : (ttSessionRelPoll C s ttFrameMax ρ).2 = x :: f) : ∃ text, HandsOut C ident s (x :: f) text := by
  rw [ttSessionRelPoll] at h
  split_ifs at h with ha h1 h2 h3
  · exact ⟨none, (Seals.control (Bool.eq_true_of_not_eq_false ha) h).handsOut⟩
  · exact relResend_seals _ ρ 0 (Bool.eq_true_of_not_eq_false ha) h
  · exact ⟨none, (Seals.control (Bool.eq_true_of_not_eq_false ha) h).handsOut⟩

end TkTox
