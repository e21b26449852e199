import TkTox.OfflineFlush
import TkTox.SendAtomic

/-!
What the chat engine offers toxcore in a call: frames of one type, or nothing but DATA.
-/

namespace TkTox

variable {C : Crypto} {env : ChatEnv} {P : Bytes → Prop} {t t' t'' : Chat}

def ChatEffect.offered : ChatEffect → Option Bytes
  | .frame _ f _ => some f
  | .refused f => some f
  | _ => none

def Offers (P : Bytes → Prop) (t t' : Chat) : Prop :=
  ∃ l, t'.log = t.log ++ l ∧ ∀ e ∈ l, ∀ f, e.offered = some f → P f

theorem Offers.of_log (h : t'.log = t.log) : Offers P t t' := ⟨[], by simp [h], by simp⟩

theorem Offers.refl (t : Chat) : Offers P t t := Offers.of_log rfl

theorem Offers.trans (h : Offers P t t') (h' : Offers P t' t'') : Offers P t t'' := by
  obtain ⟨l, hl, hp⟩ := h
  obtain ⟨l', hl', hp'⟩ := h'
  refine ⟨l ++ l', by rw [hl', hl, List.append_assoc], ?_⟩
  intro e he
  obtain he | he := List.mem_append.mp he
  · exact hp e he
  · exact hp' e he

theorem Offers.emit {e : ChatEffect} (h : ∀ f, e.offered = some f → P f) : Offers P t (t.emit e) := by
  refine ⟨[e], rfl, ?_⟩
  intro e' he'
  rw [List.mem_singleton] at he'
  rw [he']
  exact h

theorem Offers.event (ev : ChatEvent) : Offers P t (t.emit (.event ev)) :=
  Offers.emit fun f h => (by simp [ChatEffect.offered] at h)

theorem e2eeSendFrame_offers (env : ChatEnv) (t : Chat) (type : ToxMessageType) {f : Bytes}
    (piece : Option Piece) (hf : P f) :
    Offers P t (e2eeSendFrame env t type f piece).1 := by
  have hstep : ∀ e : ChatEffect, (∀ f, e.offered = some f → P f) → Offers P t (t.tick.emit e) :=
    fun e he => (Offers.of_log rfl : Offers P t t.tick).trans (Offers.emit he)
  obtain ⟨mid, -, he⟩ | ⟨-, he⟩ := e2eeSendFrame_cases env t type f piece
  · rw [he]
    apply hstep
    rintro g ⟨⟩
    exact hf
  · rw [he]
    apply hstep
    rintro g ⟨⟩
    exact hf

theorem e2eeWarn_offers (t : Chat) (msg : String) : Offers P t (e2eeWarn t msg) := by
  unfold e2eeWarn
  split_ifs
  · exact Offers.refl t
  · exact (Offers.of_log rfl).trans (Offers.event _)

theorem requeue_offers (t : Chat) (p : Piece) : Offers P t (t.requeue p) :=
  (Offers.of_log rfl).trans (Offers.emit fun f h => (by simp [ChatEffect.offered] at h))

theorem requeueAll_offers (t : Chat) (ps : List Piece) : Offers P t (ps.foldl Chat.requeue t) := by
  induction ps generalizing t with
  | nil => exact Offers.refl t
  | cons p ps ih => exact (requeue_offers t p).trans (ih _)

def HasType (type : TTFrameType) (f : Bytes) : Prop := f[5]? = some type.toByte

theorem ttFrameEncode_hasType {cap : ℕ} {type : TTFrameType} {seq : ℕ} {flags : UInt8} {key : Key}
    {nonce : Nonce} {hdr pt f : Bytes} (h : ttFrameEncode C cap type seq flags key nonce hdr pt = some f) :
    HasType type f := by
  obtain ⟨-, -, -, -, ct, -, rfl⟩ := ttFrameEncode_eq_some h
  rfl

theorem HasType.unique {type type' : TTFrameType} {f : Bytes} (h : HasType type f)
    (h' : HasType type' f) : type = type' := by
  unfold HasType at h h'
  rw [h, Option.some_inj] at h'
  cases type <;> cases type' <;> first | rfl | exact absurd h' (by decide)

theorem emitFrame_hasType {s : TTSession} {text : TTSentBuf → Bytes} {cap : ℕ} {b : Bool} {ρ : Draws}
    {f : Bytes} (h : (emitFrame C s text cap b ρ).2 = .ok f) : HasType .data f := by
  obtain ⟨-, -, he⟩ | ⟨-, -, he⟩ | ⟨-, g, hg, he⟩ := emitFrame_cases C s text cap b ρ
  · rw [he] at h
    cases h
  · rw [he] at h
    cases h
  · rw [he] at h
    cases h
    exact ttFrameEncode_hasType hg

theorem ttSessionSend_hasType {s : TTSession} {text : Bytes} {ρ : Draws} {b : UInt8} {f : Bytes}
    (h : (ttSessionSend C s text ttFrameMax ρ).2 = .ok (b :: f)) : HasType .data (b :: f) := by
  unfold ttSessionSend at h
  split_ifs at h <;> first | exact emitFrame_hasType h | simp at h

theorem ttSessionFlush_ret (s : TTSession) (ρ : Draws) :
    (ttSessionFlush C s ttFrameMax ρ).2 = .ok [] ∨
      ∃ text, (ttSessionFlush C s ttFrameMax ρ).2 = (emitFrame C s text ttFrameMax false ρ).2 := by
  unfold ttSessionFlush
  split
  · next text rest _ _ =>
    refine Or.inr ⟨fun _ => text, ?_⟩
    cases emitFrame C s (fun _ => text) ttFrameMax false ρ with
    | mk s' r =>
      dsimp only
      split <;> simp_all
  · exact Or.inl rfl

theorem ttSessionFlush_hasType {s : TTSession} {ρ : Draws} {b : UInt8} {f : Bytes}
    (h : (ttSessionFlush C s ttFrameMax ρ).2 = .ok (b :: f)) : HasType .data (b :: f) := by
  obtain hn | ⟨text, hr⟩ := ttSessionFlush_ret (C := C) s ρ
  · rw [hn] at h
    simp at h
  · rw [hr] at h
    exact emitFrame_hasType h

theorem e2eePump_offers (n : ℕ) (t : Chat) : Offers (HasType .data) t (e2eePump C env n t) := by
  induction n generalizing t with
  | zero => exact Offers.refl t
  | succ n ih =>
    unfold e2eePump
    dsimp only
    split
    · next b f he =>
      have hs := e2eeSendFrame_offers env (t.setE2ee (ttSessionFlush C t.e2ee ttFrameMax
        (env.draws t.clock 0)).1) .normal none (ttSessionFlush_hasType he)
      refine Offers.trans ((Offers.of_log rfl).trans hs) ?_
      split_ifs
      · exact ih _
      · exact (Offers.event _).trans (ih _)
    · exact Offers.of_log rfl

theorem sendChunk_offers (C : Crypto) (env : ChatEnv) (t : Chat) (type : ToxMessageType) (p : Piece) :
    Offers (HasType .data) t (sendChunk C env t type p).1 := by
  unfold sendChunk
  dsimp only
  split
  · exact Offers.of_log rfl
  · exact (Offers.of_log (t := t) rfl).trans (Offers.emit fun f h => (by simp [ChatEffect.offered] at h))
  · next b f he =>
    exact (Offers.of_log rfl).trans (e2eeSendFrame_offers _ _ _ _ (ttSessionSend_hasType he))

theorem flushText_offers (C : Crypto) (env : ChatEnv) (ps : List Piece) (t : Chat) :
    Offers (HasType .data) t (flushText C env ps t).1 := by
  induction ps generalizing t with
  | nil => exact Offers.refl t
  | cons p ps ih =>
    have hs := sendChunk_offers C env t .normal p
    unfold flushText
    cases hr : sendChunk C env t .normal p with
    | mk t' ans =>
      rw [hr] at hs
      cases ans with
      | failed => exact hs
      | sent => exact hs.trans (ih t')
      | stashed =>
        cases ps with
        | nil => exact hs
        | cons q qs => exact hs.trans (requeue_offers _ _)

theorem flushTexts_offers (ps : List Piece) (t : Chat) :
    Offers (HasType .data) t (flushTexts C env ps t) := by
  induction ps generalizing t with
  | nil => exact Offers.refl t
  | cons p ps ih =>
    have hs := flushText_offers C env (textChunks p) t
    unfold flushTexts
    cases hr : flushText C env (textChunks p) t with
    | mk t' done =>
      rw [hr] at hs
      cases done with
      | true => exact hs.trans (ih t')
      | false => exact hs.trans (requeueAll_offers _ _)

theorem flushPlain_offers (ps : List Piece) (t : Chat) : Offers P t (flushPlain env ps t) := by
  induction ps generalizing t with
  | nil => exact Offers.refl t
  | cons p ps ih =>
    unfold flushPlain
    cases env.message t.clock with
    | ok mid =>
      have hp : Offers P t (t.tick.emit (.plain .normal p)) := (Offers.of_log rfl).trans
        (Offers.emit fun f h => (by simp [ChatEffect.offered] at h))
      exact (hp.trans (Offers.event _)).trans (ih _)
    | notConnected => exact (Offers.of_log rfl).trans (requeueAll_offers _ _)
    | other => exact (Offers.of_log rfl).trans (ih _)

theorem offlineFlushFriend_offers (t : Chat) :
    Offers (HasType .data) t (offlineFlushFriend C env t) := by
  have hempty : Offers (HasType .data) t t.emptied := Offers.of_log rfl
  unfold offlineFlushFriend
  dsimp only
  split_ifs
  · exact hempty
  · exact hempty.trans (e2eeWarn_offers _ _)
  · have hw : Offers (HasType .data) t (e2eeWarn { t.emptied with fallback := true } queuePlainWarn) :=
      (Offers.of_log rfl).trans (e2eeWarn_offers _ _)
    exact (hw.trans (flushPlain_offers _ _)).trans (Offers.event _)
  · exact (hempty.trans (flushTexts_offers _ _)).trans (Offers.event _)
  · exact (hempty.trans (flushPlain_offers _ _)).trans (Offers.event _)

theorem rxEstablished_offers (t : Chat) (wasActive : Bool) :
    Offers (HasType .data) t (rxEstablished C env t wasActive) := by
  unfold rxEstablished
  dsimp only
  have henforce : Offers (HasType .data) t
      (if (!wasActive && !t.required) = true then
        ({ t with fallback := false, required := true } : Chat).emit (.event (.e2eeEnforce true))
      else { t with fallback := false }) := by
    split_ifs
    · exact (Offers.of_log rfl).trans (Offers.event _)
    · exact Offers.of_log rfl
  split_ifs at henforce ⊢ with h1 h2 h2
  · exact (henforce.trans (e2eePump_offers _ _)).trans (offlineFlushFriend_offers _)
  · exact henforce.trans (e2eePump_offers _ _)
  · exact (henforce.trans (e2eePump_offers _ _)).trans (offlineFlushFriend_offers _)
  · exact henforce.trans (e2eePump_offers _ _)

theorem rxHandshaked_offers {ret : Except TTE2EEStatus Bytes} {wasActive : Bool}
    (hdue : t.e2ee.replyDue = false) : Offers (HasType .data) t (rxHandshaked C env t wasActive ret) := by
  have hret : rxAnswer C env t ret = t := by
    unfold rxAnswer
    split
    · rw [hdue]
      rfl
    · rfl
  unfold rxHandshaked
  rw [hret]
  have hest : Offers (HasType .data) t
      (if t.e2ee.active = true then rxEstablished C env t wasActive else t) := by
    split_ifs
    · exact rxEstablished_offers t wasActive
    · exact Offers.refl t
  dsimp only
  split_ifs at hest ⊢
  · exact hest
  · exact hest.trans (Offers.event _)
  · exact hest
  · exact hest.trans (Offers.event _)

end TkTox
