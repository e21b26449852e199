import TkTox.EmitFrame

/-!
Runs of one session: every entry point of `session.c` as one operation, and what each of
them leaves untouched.
-/

namespace TkTox

inductive SessionOp
  | start (env : TTE2EEEnv) (ρ : Draws) (now : ℤ) (cap : ℕ)
  | reply (env : TTE2EEEnv) (ρ : Draws) (cap : ℕ)
  | tick (env : TTE2EEEnv) (ρ : Draws) (now : ℤ) (cap : ℕ)
  | feed (env : TTE2EEEnv) (ρ : Draws) (input : Bytes) (ptCap : ℕ)
  | send (text : Bytes) (cap : ℕ) (ρ : Draws)
  | sendLossy (text : Bytes) (cap : ℕ) (ρ : Draws)
  | flush (cap : ℕ) (ρ : Draws)
  | relPoll (cap : ℕ) (ρ : ℕ → Draws)
  | carrier (cap : ℕ) (ρ : Draws)
  | carrierDone
  | rekeyDue

def sessionStep (C : Crypto) (s : TTSession) : SessionOp → TTSession
  | .start env ρ now cap => (ttSessionStart C s env ρ now cap).1
  | .reply env ρ cap => (ttSessionReply C s env ρ cap).1
  | .tick env ρ now cap => (ttSessionTick C s env ρ now cap).1
  | .feed env ρ input ptCap => (ttSessionFeed C s env ρ input ptCap).session
  | .send text cap ρ => (ttSessionSend C s text cap ρ).1
  | .sendLossy text cap ρ => (ttSessionSendLossy C s text cap ρ).1
  | .flush cap ρ => (ttSessionFlush C s cap ρ).1
  | .relPoll cap ρ => (ttSessionRelPoll C s cap ρ).1
  | .carrier cap ρ => (ttSessionCarrier C s cap ρ).1
  | .carrierDone => ttSessionCarrierDone s
  | .rekeyDue => ttSessionRekeyDue s

def okBytes : Except TTE2EEStatus Bytes → Bytes
  | .ok b => b
  | .error _ => []

def sessionOut (C : Crypto) (s : TTSession) : SessionOp → Bytes
  | .start env ρ now cap => okBytes (ttSessionStart C s env ρ now cap).2
  | .reply env ρ cap => okBytes (ttSessionReply C s env ρ cap).2
  | .tick env ρ now cap => okBytes (ttSessionTick C s env ρ now cap).2
  | .send text cap ρ => okBytes (ttSessionSend C s text cap ρ).2
  | .sendLossy text cap ρ => okBytes (ttSessionSendLossy C s text cap ρ).2
  | .flush cap ρ => okBytes (ttSessionFlush C s cap ρ).2
  | .relPoll cap ρ => (ttSessionRelPoll C s cap ρ).2
  | .carrier cap ρ => okBytes (ttSessionCarrier C s cap ρ).2
  | .feed _ _ _ _ | .carrierDone | .rekeyDue => []

def sessionRun (C : Crypto) (s : TTSession) (ops : List SessionOp) : TTSession :=
  ops.foldl (sessionStep C) s

variable {C : Crypto} {s : TTSession}

def SameReceiver (s s' : TTSession) : Prop := s'.active = s.active ∧ s'.recv = s.recv

theorem SameReceiver.refl (s : TTSession) : SameReceiver s s := ⟨rfl, rfl⟩

theorem SameReceiver.trans {s t u : TTSession} (h : SameReceiver s t) (h' : SameReceiver t u) :
    SameReceiver s u := ⟨h'.1.trans h.1, h'.2.trans h.2⟩

theorem finishFold_sameReceiver (fold : Option (Key × Key)) :
    SameReceiver s (finishFold C s fold) := by
  cases fold <;> exact ⟨rfl, rfl⟩

theorem parkCarrier_sameReceiver (hdr frame : Bytes) : SameReceiver s (parkCarrier s hdr frame) := by
  unfold parkCarrier
  split <;> exact ⟨rfl, rfl⟩

theorem emitDone_sameReceiver (text : TTSentBuf → Bytes) (b : Bool) (ρ : Draws) (f : Bytes) :
    SameReceiver s (emitDone C s text b ρ f) := by
  refine SameReceiver.trans ?_ (parkCarrier_sameReceiver _ _)
  refine SameReceiver.trans ?_ (finishFold_sameReceiver _)
  split <;> exact ⟨rfl, rfl⟩

theorem emitFrame_sameReceiver (text : TTSentBuf → Bytes) (cap : ℕ) (carrierOnly : Bool)
    (ρ : Draws) : SameReceiver s (emitFrame C s text cap carrierOnly ρ).1 := by
  rcases emitFrame_cases C s text cap carrierOnly ρ with ⟨-, -, h⟩ | ⟨-, -, h⟩ | ⟨-, f, -, h⟩
  · rw [h]
    exact .refl s
  · rw [h]
    exact ⟨rfl, rfl⟩
  · rw [h]
    exact emitDone_sameReceiver text carrierOnly ρ f

theorem relResend_sameReceiver (cap : ℕ) (ρ : ℕ → Draws) (n r : ℕ) :
    SameReceiver s (relResend C cap ρ n r s).1 := by
  induction n generalizing r s with
  | zero => exact ⟨rfl, rfl⟩
  | succ n ih =>
    unfold relResend
    dsimp only
    split
    · exact ih _
    · have he := emitFrame_sameReceiver (C := C) (s := s)
        (TTSentBuf.readSlot (sentIdx (s.rel.sent.head + r))
          (s.rel.sent.m (sentIdx (s.rel.sent.head + r))).data.length) cap false (ρ r)
      split
      · rename_i heq
        rw [heq] at he
        exact ⟨he.1, he.2⟩
      · rename_i heq
        rw [heq] at he
        exact he.trans (ih _)

theorem ttSessionRelPoll_sameReceiver (cap : ℕ) (ρ : ℕ → Draws) :
    SameReceiver s (ttSessionRelPoll C s cap ρ).1 := by
  unfold ttSessionRelPoll
  split_ifs
  · exact .refl s
  · exact ⟨rfl, rfl⟩
  · exact relResend_sameReceiver cap ρ _ _
  · exact ⟨rfl, rfl⟩
  · exact .refl s

theorem ttSessionFlush_sameReceiver (cap : ℕ) (ρ : Draws) :
    SameReceiver s (ttSessionFlush C s cap ρ).1 := by
  unfold ttSessionFlush
  split
  · have he := emitFrame_sameReceiver (C := C) (s := s) (fun _ => ‹Bytes›) cap false ρ
    split
    · rename_i heq
      rw [heq] at he
      exact ⟨he.1, he.2⟩
    · rename_i heq
      rw [heq] at he
      exact he
  · exact .refl s

theorem sessionStep_sameReceiver (op : SessionOp) (hs : ∀ env ρ now cap, op ≠ .start env ρ now cap)
    (hf : ∀ env ρ input cap, op ≠ .feed env ρ input cap) :
    SameReceiver s (sessionStep C s op) := by
  cases op with
  | start env ρ now cap => exact absurd rfl (hs env ρ now cap)
  | feed env ρ input cap => exact absurd rfl (hf env ρ input cap)
  | reply env ρ cap =>
    simp only [sessionStep, ttSessionReply]
    split
    · exact .refl s
    split_ifs
    · exact .refl s
    · exact .refl s
    split
    · exact ⟨rfl, rfl⟩
    split <;> exact ⟨rfl, rfl⟩
  | tick env ρ now cap =>
    simp only [sessionStep, ttSessionTick]
    split_ifs <;> exact ⟨rfl, rfl⟩
  | send text cap ρ =>
    simp only [sessionStep, ttSessionSend]
    split_ifs
    iterate 2 exact .refl s
    · exact ⟨rfl, rfl⟩
    · exact .refl s
    · exact emitFrame_sameReceiver _ _ _ _
  | sendLossy text cap ρ =>
    simp only [sessionStep, ttSessionSendLossy]
    split_ifs
    iterate 2 exact .refl s
    exact emitFrame_sameReceiver _ _ _ _
  | flush cap ρ => exact ttSessionFlush_sameReceiver cap ρ
  | relPoll cap ρ => exact ttSessionRelPoll_sameReceiver cap ρ
  | carrier cap ρ =>
    simp only [sessionStep, ttSessionCarrier]
    split_ifs
    iterate 4 exact .refl s
    exact emitFrame_sameReceiver _ _ _ _
  | carrierDone => exact ⟨rfl, rfl⟩
  | rekeyDue =>
    simp only [sessionStep, ttSessionRekeyDue]
    split_ifs <;> exact ⟨rfl, rfl⟩

variable (C s) in
theorem ttSessionStart_inactive (env : TTE2EEEnv) (ρ : Draws) (now : ℤ) (cap : ℕ) :
    (ttSessionStart C s env ρ now cap).1 = s ∨
      (ttSessionStart C s env ρ now cap).1.active = false := by
  unfold ttSessionStart
  split
  · exact Or.inl rfl
  right
  dsimp only
  split
  · rfl
  split <;> rfl

end TkTox
