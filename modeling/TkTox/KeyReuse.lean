import TkTox.Machine
import TkTox.SendEvents
import TkTox.SessionRange
import TkTox.SessionStore

/-!
The sessions of an engine over its process lives: calls, friend deletions, clean shutdowns, crashes
and startups from the session file, and whether a message key ever seals twice.
-/

namespace TkTox

open ChainLedger

inductive Channel
  | chat (fn : Fin 256)
  | tunnel (fn : Fin 256)
deriving DecidableEq

/-- `session`, `file` and `sessionKey` are the code's. The others follow it: where each sending
chain stands, where those of the file stood when it was written, and what was sealed. -/
structure Engine where
  session : Channel → TTSession
  file : Option Bytes
  sessionKey : Option ToxPassKey
  place : Channel → Pos
  saved : Fin 256 → Option Pos
  ledger : Ledger Key (Key × Nonce) Bytes

inductive EngineOp
  | call (c : Channel) (op : SessionOp)
  | deleteFriend (fn : Fin 256)
  | shutdown
  | crash
  | startup (derived : Option ToxPassKey)

def processSession : Channel → TTSession
  | .chat _ => .zero
  | .tunnel _ => { TTSession.zero with lossy := true }

namespace Engine

def initial : Engine := ⟨processSession, none, none, fun _ => ⟨0, 0⟩, fun _ => none, ⟨[], []⟩⟩

def e2ee (E : Engine) (fn : Fin 256) : TTSession := E.session (.chat fn)

def live (E : Engine) (c : Channel) : Option Pos :=
  if (E.session c).active then some (E.place c) else none

def setSession (E : Engine) (c : Channel) (s : TTSession) : Engine :=
  { E with session := Function.update E.session c s }

def stop (E : Engine) : Engine := { E with session := processSession }

def save (E : Engine) : Engine :=
  { E with
    file := ttSessionStoreSave E.e2ee E.sessionKey E.file
    saved :=
      if activeCount E.e2ee % 256 = 0 then fun _ => none
      else match sidecarWrite E.sessionKey (sesPlain E.e2ee) with
      | none => E.saved
      | some _ => fun fn => E.live (.chat fn) }

section

variable (C : Crypto) (T : ToxEncryptSave)

def call (E : Engine) (c : Channel) (op : SessionOp) : Engine :=
  let t := (sessionEvents C (E.session c) op).foldl after (E.place c, E.ledger)
  { E.setSession c (sessionStep C (E.session c) op) with
    place := Function.update E.place c t.1
    ledger := t.2 }

def stored (E : Engine) : Fin 256 → TTSession :=
  ttSessionStoreLoad T (fun _ => .zero) E.file E.sessionKey

def startup (E : Engine) (derived : Option ToxPassKey) : Engine :=
  let key := if E.file = none then derived else E.sessionKey
  let e2ee := ttSessionStoreLoad T (fun _ => .zero) E.file key
  { E with
    sessionKey := key
    session := fun
      | .chat fn => e2ee fn
      | .tunnel fn => processSession (.tunnel fn)
    place := fun
      | .chat fn => (E.saved fn).getD (E.place (.chat fn))
      | .tunnel fn => E.place (.tunnel fn) }

def step (E : Engine) : EngineOp → Engine
  | .call c op => E.call C c op
  | .deleteFriend fn => (E.setSession (.chat fn) .zero).save
  | .shutdown => E.save.stop
  | .crash => E.stop
  | .startup derived => E.startup T derived

end

def SavedCurrent (E : Engine) : Prop := ∀ fn, ∀ p ∈ E.saved fn, E.ledger.Past p

def startsCurrent (E : Engine) : EngineOp → Prop
  | .startup _ => E.SavedCurrent
  | _ => True

instance (E : Engine) : Decidable E.SavedCurrent :=
  inferInstanceAs (Decidable (∀ fn, ∀ p ∈ E.saved fn, E.ledger.Past p))

instance (E : Engine) : (op : EngineOp) → Decidable (E.startsCurrent op)
  | .startup _ => inferInstanceAs (Decidable E.SavedCurrent)
  | .call _ _ | .deleteFriend _ | .shutdown | .crash => isTrue trivial

structure Inv (C : Crypto) (T : ToxEncryptSave) (E : Engine) : Prop where
  sound : LiveSound (nextChain C) (chainMaterial C) E.live E.ledger
  chain : ∀ c, (E.session c).active = true →
    E.ledger.chainAt (nextChain C) (E.place c) = some (E.session c).send.chain
  bounded : ∀ c, (E.session c).Bounded
  key : ∀ k ∈ E.sessionKey, k.Invertible T
  stored : ∀ fn, (E.stored T fn).active = true → ∃ p, E.saved fn = some p ∧
    E.ledger.chainAt (nextChain C) p = some (E.stored T fn).send.chain
  storedBounded : ∀ fn, (E.stored T fn).Bounded
  apart : ∀ fn fn' p q, E.saved fn = some p → E.saved fn' = some q → p.chain = q.chain → fn = fn'

variable {C : Crypto} {T : ToxEncryptSave} {E : Engine}

theorem live_eq_some {c : Channel} {p : Pos} :
    E.live c = some p ↔ (E.session c).active = true ∧ E.place c = p := by
  unfold live
  split_ifs with h
  · simp [h]
  · simp [h]

@[simp] theorem setSession_self (c : Channel) (s : TTSession) : (E.setSession c s).session c = s :=
  Function.update_self ..

theorem setSession_of_ne {c d : Channel} (h : d ≠ c) (s : TTSession) :
    (E.setSession c s).session d = E.session d :=
  Function.update_of_ne h ..

theorem processSession_inactive (c : Channel) : (processSession c).active = false := by
  cases c <;> rfl

theorem processSession_bounded (c : Channel) : (processSession c).Bounded := by
  cases c
  · exact zero_bounded
  · exact zero_bounded.of_eq rfl rfl rfl rfl

theorem inv_initial : initial.Inv C T where
  sound := by
    have hl (c : Channel) : initial.live c = none := if_neg (by simp [initial, processSession_inactive])
    refine ⟨?_, ?_, ?_, by simp [initial], by simp [initial]⟩ <;> simp [hl]
  chain c hc := by
    rw [show (initial.session c).active = false from processSession_inactive c] at hc
    cases hc
  bounded := processSession_bounded
  key := by simp [initial]
  stored fn hfn := by cases hfn
  storedBounded _ := zero_bounded
  apart := by simp [initial]

theorem call_live (c : Channel) (op : SessionOp) (d : Channel) :
    (E.call C c op).live d = if d = c then
      if (sessionStep C (E.session c) op).active then
        some ((sessionEvents C (E.session c) op).foldl after (E.place c, E.ledger)).1
      else none
    else E.live d := by
  by_cases hd : d = c
  · subst hd
    simp [live, call, setSession]
  · simp [live, call, setSession, hd]

theorem Inv.of_call (h : E.Inv C T) (c : Channel) (op : SessionOp)
    (hs : LiveSound (nextChain C) (chainMaterial C) (E.call C c op).live (E.call C c op).ledger)
    (hc : (sessionStep C (E.session c) op).active = true →
      (E.call C c op).ledger.chainAt (nextChain C) ((E.call C c op).place c) =
        some (sessionStep C (E.session c) op).send.chain) : (E.call C c op).Inv C T where
  sound := hs
  chain d hd := by
    by_cases hdc : d = c
    · subst hdc
      simp only [call, setSession, Function.update_self] at hc hd ⊢
      exact hc hd
    · simp only [call, setSession, Function.update_of_ne hdc] at hd ⊢
      exact chainAt_foldl _ (h.chain d hd)
  bounded d := by
    by_cases hdc : d = c
    · subst hdc
      simp only [call, setSession, Function.update_self]
      exact (h.bounded d).step op
    · simp only [call, setSession, Function.update_of_ne hdc]
      exact h.bounded d
  key := h.key
  stored fn hfn := by
    obtain ⟨p, hp, hchain⟩ := h.stored fn hfn
    exact ⟨p, hp, chainAt_foldl _ hchain⟩
  storedBounded := h.storedBounded
  apart := h.apart

theorem Inv.call (h : E.Inv C T) (c : Channel) (op : SessionOp) : (E.call C c op).Inv C T := by
  have hlive := call_live (C := C) (E := E) c op
  apply h.of_call c op
  · obtain ⟨ht, hn⟩ | ⟨ha, hn⟩ | ⟨ha, hn⟩ := sessionStep_events C (E.session c) op
    · cases hact : (E.session c).active with
      | true =>
        obtain ⟨hs, -⟩ := h.sound.events (live_eq_some.mpr ⟨hact, rfl⟩) (h.chain c hact) ht.follows
        have heq : (E.call C c op).live = Function.update E.live c
            (some ((sessionEvents C (E.session c) op).foldl after (E.place c, E.ledger)).1) := by
          funext d
          rw [hlive, ht.active, hact, if_pos rfl, Function.update_apply]
        rw [heq]
        exact hs
      | false =>
        have hl : (E.call C c op).ledger = E.ledger := by simp [Engine.call, hn hact]
        rw [hl]
        apply h.sound.restrict
        intro d p hd
        rw [hlive, ht.active, hact, if_neg Bool.false_ne_true] at hd
        split_ifs at hd
        exact hd
    · have hl : (E.call C c op).ledger = E.ledger := by simp [Engine.call, hn]
      rw [hl]
      apply h.sound.restrict
      intro d p hd
      rw [hlive, ha, if_neg Bool.false_ne_true] at hd
      split_ifs at hd
      exact hd
    · have hl : (E.call C c op).ledger = E.ledger.start (sessionStep C (E.session c) op).send.chain := by
        simp [Engine.call, hn, after]
      have heq : (E.call C c op).live = Function.update E.live c (some ⟨E.ledger.seeds.length, 0⟩) := by
        funext d
        rw [hlive, ha, if_pos rfl, hn, Function.update_apply]
        rfl
      rw [hl, heq]
      exact h.sound.start c _
  · intro ha'
    simp only [Engine.call, Function.update_self]
    obtain ⟨ht, hn⟩ | ⟨ha, hn⟩ | ⟨ha, hn⟩ := sessionStep_events C (E.session c) op
    · have hact : (E.session c).active = true := ht.active ▸ ha'
      rw [ht.chain]
      exact (h.sound.events (live_eq_some.mpr ⟨hact, rfl⟩) (h.chain c hact) ht.follows).2
    · rw [ha] at ha'
      cases ha'
    · rw [hn]
      exact chainAt_new _

/-! ### The session file -/

theorem sessionGet_pending (p : Bytes) (s : TTSession) : (sessionGet p s).1.pending = s.pending := by
  unfold sessionGet
  split
  · rfl
  dsimp only
  split
  · rfl
  split
  · rfl
  split
  · rfl
  split <;> rfl

theorem sesReadAll_pending (n : ℕ) (p : Bytes) (e : Fin 256 → TTSession) (fn : Fin 256) :
    (sesReadAll n p e fn).pending = (e fn).pending := by
  induction n generalizing p e with
  | zero => rfl
  | succ n ih =>
    cases p with
    | nil => rfl
    | cons x p =>
      have hup : ((Function.update e ⟨x.toNat, x.toNat_lt⟩
          (sessionGet (x :: p) (e ⟨x.toNat, x.toNat_lt⟩)).1) fn).pending = (e fn).pending := by
        obtain rfl | hne := eq_or_ne fn ⟨x.toNat, x.toNat_lt⟩
        · rw [Function.update_self, sessionGet_pending]
        · rw [Function.update_of_ne hne]
      rw [sesReadAll]
      cases (sessionGet (x :: p) (e ⟨x.toNat, x.toNat_lt⟩)).2 with
      | none => exact hup
      | some p' => exact (ih p' _).trans hup

theorem stored_pending (fn : Fin 256) : (E.stored T fn).pending = [] := by
  unfold stored ttSessionStoreLoad
  cases E.file with
  | none => rfl
  | some buf =>
    dsimp only
    split_ifs
    · rfl
    cases sesDecrypt T E.sessionKey buf with
    | none => rfl
    | some pt =>
      dsimp only
      split_ifs
      · rfl
      cases pt.drop 6 with
      | nil => rfl
      | cons count p => exact sesReadAll_pending _ _ _ _

theorem restored_bounded {s t u : TTSession} (h : Restored s t u) (hs : s.InRange)
    (hp : u.pending = []) : u.Bounded := by
  have hr := hs.rel
  have hcount : u.rel.sent.count = s.rel.sent.count := by
    have hl := congrArg List.length h.sent
    simpa [TTSentBuf.entries] using hl
  have hsent : u.rel.InRange := by
    rw [h.rel]
    exact ⟨hcount ▸ hr.count, h.sent ▸ hr.tags, h.sent ▸ hr.lengths, hr.recvAcked, hr.reqGen,
      hr.reqFrom, hr.repGen, hr.repFrom, hr.repPos⟩
  exact ⟨⟨h.send ▸ hs.send, h.recv ▸ hs.recv, hsent⟩, by simp [hp]⟩

theorem save_stored (hk : ∀ k ∈ E.sessionKey, k.Invertible T)
    (hr : ∀ fn, (E.e2ee fn).InRange) (fn : Fin 256) :
    (E.save.stored T fn = E.stored T fn ∧ E.save.saved = E.saved) ∨ E.save.stored T fn = .zero ∨
      ((E.e2ee fn).active = true ∧ Restored (E.e2ee fn) .zero (E.save.stored T fn) ∧
        E.save.saved fn = some (E.place (.chat fn))) := by
  by_cases hcount : activeCount E.e2ee % 256 = 0
  · refine Or.inr (Or.inl ?_)
    simp only [stored, save, ttSessionStoreSave, if_pos hcount]
    rfl
  cases hw : sidecarWrite E.sessionKey (sesPlain E.e2ee) with
  | none =>
    left
    simp only [stored, save, ttSessionStoreSave, if_neg hcount, hw, and_true]
  | some buf =>
    right
    have hplain : E.sessionKey.isSome → (sesPlain E.e2ee).length ≤ sidecarMax := by
      intro hsome
      obtain ⟨k, hkey⟩ := Option.isSome_iff_exists.mp hsome
      rw [hkey, sidecarWrite] at hw
      split_ifs at hw with hfit
      exact not_lt.mp fun hlt => hfit (Or.inr hlt)
    by_cases hsize : sesFileSize E.sessionKey E.e2ee ≤ sidecarMax
    · obtain ⟨hin, hout⟩ := ttSessionStoreLoad_save hk (fun fn _ => hr fn) hcount hsize E.file
        (fun _ => .zero) fn
      cases ha : (E.e2ee fn).active with
      | false => exact Or.inl (hout ha)
      | true =>
        refine Or.inr ⟨rfl, hin ha, ?_⟩
        simp only [save, if_neg hcount, hw]
        exact live_eq_some.mpr ⟨ha, rfl⟩
    · obtain ⟨new, hsave, hlen, -⟩ := ttSessionStoreSave_written hk hcount hplain E.file
      refine Or.inl ?_
      simp only [stored, save, hsave]
      rw [ttSessionStoreLoad_large (by omega)]

theorem save_saved : E.save.saved = E.saved ∨
    ∀ fn p, E.save.saved fn = some p → E.live (.chat fn) = some p := by
  simp only [save]
  split_ifs with hcount
  · exact Or.inr fun fn p hp => by cases hp
  · cases sidecarWrite E.sessionKey (sesPlain E.e2ee) with
    | none => exact Or.inl rfl
    | some buf => exact Or.inr fun fn p hp => hp

theorem Inv.save (h : E.Inv C T) : E.save.Inv C T where
  sound := h.sound
  chain := h.chain
  bounded := h.bounded
  key := h.key
  stored fn hfn := by
    obtain ⟨hs, hsaved⟩ | hz | ⟨ha, hs, hsaved⟩ :=
      save_stored h.key (fun fn => (h.bounded (.chat fn)).range) fn
    · rw [hs] at hfn ⊢
      rw [hsaved]
      exact h.stored fn hfn
    · rw [hz] at hfn
      cases hfn
    · refine ⟨_, hsaved, ?_⟩
      rw [hs.send]
      exact h.chain (.chat fn) ha
  storedBounded fn := by
    obtain ⟨hs, -⟩ | hz | ⟨-, hs, -⟩ :=
      save_stored h.key (fun fn => (h.bounded (.chat fn)).range) fn
    · rw [hs]
      exact h.storedBounded fn
    · rw [hz]
      exact zero_bounded
    · exact restored_bounded hs (h.bounded (.chat fn)).range (stored_pending fn)
  apart fn fn' p q hp hq hpq := by
    obtain hs | hs := save_saved (E := E)
    · rw [hs] at hp hq
      exact h.apart fn fn' p q hp hq hpq
    · have := h.sound.apart _ _ p q (hs fn p hp) (hs fn' q hq) hpq
      cases this
      rfl

theorem Inv.clear (h : E.Inv C T) (c : Channel) : (E.setSession c .zero).Inv C T where
  sound := by
    apply h.sound.restrict
    intro d p hd
    rw [live_eq_some] at hd ⊢
    obtain ⟨ha, hp⟩ := hd
    obtain rfl | hne := eq_or_ne d c
    · rw [setSession_self] at ha
      cases ha
    · rw [setSession_of_ne hne] at ha
      exact ⟨ha, hp⟩
  chain d hd := by
    obtain rfl | hne := eq_or_ne d c
    · rw [setSession_self] at hd
      cases hd
    · rw [setSession_of_ne hne] at hd ⊢
      exact h.chain d hd
  bounded d := by
    obtain rfl | hne := eq_or_ne d c
    · rw [setSession_self]
      exact zero_bounded
    · rw [setSession_of_ne hne]
      exact h.bounded d
  key := h.key
  stored := h.stored
  storedBounded := h.storedBounded
  apart := h.apart

theorem Inv.stop (h : E.Inv C T) : E.stop.Inv C T where
  sound := by
    apply h.sound.restrict
    intro c p hc
    have ha : (processSession c).active = true := (live_eq_some.mp hc).1
    rw [processSession_inactive] at ha
    cases ha
  chain c hc := by
    have ha : (processSession c).active = true := hc
    rw [processSession_inactive] at ha
    cases ha
  bounded := processSession_bounded
  key := h.key
  stored := h.stored
  storedBounded := h.storedBounded
  apart := h.apart

theorem startup_load (derived : Option ToxPassKey) :
    ttSessionStoreLoad T (fun _ => .zero) E.file (if E.file = none then derived else E.sessionKey) =
      E.stored T := by
  unfold stored
  cases hf : E.file with
  | none => rfl
  | some buf => rfl

theorem Inv.startup (h : E.Inv C T) {derived : Option ToxPassKey}
    (hd : ∀ k ∈ derived, k.Invertible T) (hs : E.SavedCurrent) : (E.startup T derived).Inv C T := by
  have hload := startup_load (T := T) (E := E) derived
  have hplace : ∀ c p, (E.startup T derived).live c = some p →
      ∃ fn, c = .chat fn ∧ E.saved fn = some p ∧
        E.ledger.chainAt (nextChain C) p = some (E.stored T fn).send.chain := by
    intro c p hc
    obtain ⟨ha, hp⟩ := live_eq_some.mp hc
    cases c with
    | tunnel fn => cases ha
    | chat fn =>
      simp only [Engine.startup, hload] at ha hp
      obtain ⟨q, hq, hchain⟩ := h.stored fn ha
      rw [hq] at hp
      cases hp
      exact ⟨fn, rfl, hq, hchain⟩
  constructor
  case sound =>
    apply h.sound.moved
    · intro c p hc
      obtain ⟨fn, -, -, hchain⟩ := hplace c p hc
      exact chainAt_lt hchain
    · intro c p hc
      obtain ⟨fn, -, hp, -⟩ := hplace c p hc
      exact hs fn p hp
    · intro c d p q hc hd hpq
      obtain ⟨fn, rfl, hp, -⟩ := hplace c p hc
      obtain ⟨fn', rfl, hq, -⟩ := hplace d q hd
      rw [h.apart fn fn' p q hp hq hpq]
  case chain =>
    intro c hc
    obtain ⟨fn, rfl, -, hchain⟩ := hplace c _ (live_eq_some.mpr ⟨hc, rfl⟩)
    rw [show (E.startup T derived).session (.chat fn) = E.stored T fn from congrFun hload fn]
    exact hchain
  case bounded =>
    intro c
    cases c with
    | chat fn =>
      rw [show (E.startup T derived).session (.chat fn) = E.stored T fn from congrFun hload fn]
      exact h.storedBounded fn
    | tunnel fn => exact processSession_bounded (.tunnel fn)
  case key =>
    intro k hk
    simp only [Engine.startup] at hk
    split_ifs at hk
    · exact hd k hk
    · exact h.key k hk
  case stored =>
    intro fn hfn
    rw [show (E.startup T derived).stored T = E.stored T from hload] at hfn ⊢
    exact h.stored fn hfn
  case storedBounded =>
    intro fn
    rw [show (E.startup T derived).stored T = E.stored T from hload]
    exact h.storedBounded fn
  case apart => exact h.apart

/-- The keys an operation may derive encrypt and decrypt. -/
def DerivesKeys (T : ToxEncryptSave) : EngineOp → Prop
  | .startup derived => ∀ k ∈ derived, k.Invertible T
  | _ => True

theorem Inv.step (h : E.Inv C T) {op : EngineOp} (hd : DerivesKeys T op) (hs : E.startsCurrent op) :
    (E.step C T op).Inv C T := by
  cases op with
  | call c op => exact h.call c op
  | deleteFriend fn => exact (h.clear (.chat fn)).save
  | shutdown => exact h.save.stop
  | crash => exact h.stop
  | startup derived => exact h.startup hd hs

theorem Inv.run {ops : List EngineOp} (h : E.Inv C T) (hd : ∀ op ∈ ops, DerivesKeys T op)
    (hm : Machine.Meets (Engine.step C T) startsCurrent E ops) :
    (ops.foldl (Engine.step C T) E).Inv C T := by
  induction ops generalizing E with
  | nil => exact h
  | cons op ops ih =>
    exact ih (h.step (hd op List.mem_cons_self) hm.1) (fun x hx => hd x (List.mem_cons_of_mem _ hx)) hm.2

end Engine

/-- While every startup finds a file whose sending chains sealed nothing since it was written, no
message key of the whole history seals two different texts. -/
theorem messageKeys_once {C : Crypto} {T : ToxEncryptSave} {ops : List EngineOp}
    (hd : ∀ op ∈ ops, Engine.DerivesKeys T op)
    (hm : Machine.Meets (Engine.step C T) Engine.startsCurrent Engine.initial ops)
    (hc : (ops.foldl (Engine.step C T) Engine.initial).ledger.CollisionFree (nextChain C)
      (chainMaterial C)) :
    (ops.foldl (Engine.step C T) Engine.initial).ledger.KeysOnce :=
  (Engine.inv_initial.run hd hm).sound.keysOnce hc

namespace Instance

def greeted : EngineOp :=
  .call (.chat ⟨3, by decide⟩) (.feed bobEnv (draws 2) initFrame ttFrameDataMax)

def sends (text : Bytes) (n : UInt8) : EngineOp :=
  .call (.chat ⟨3, by decide⟩) (.send text ttFrameMax (draws n))

def resumedTwice : List EngineOp :=
  [.startup (some passKey), greeted, .shutdown, .startup (some passKey), sends [97] 5, .crash,
    .startup (some passKey), sends [98] 6]

theorem resumedTwice_reuses :
    (∀ op ∈ resumedTwice, Engine.DerivesKeys encryptSave op) ∧
      (resumedTwice.foldl (Engine.step crypto encryptSave) Engine.initial).ledger.CollisionFree
        (nextChain crypto) (chainMaterial crypto) ∧
      ¬ (resumedTwice.foldl (Engine.step crypto encryptSave) Engine.initial).ledger.KeysOnce := by
  refine ⟨?_, by decide +kernel⟩
  simp [resumedTwice, Engine.DerivesKeys, greeted, sends, passKey_invertible]

def resumedOnce : List EngineOp :=
  [.startup (some passKey), greeted, sends [97] 5, .shutdown, .startup (some passKey), sends [98] 6]

theorem resumedOnce_keysOnce :
    (resumedOnce.foldl (Engine.step crypto encryptSave) Engine.initial).ledger.KeysOnce := by
  refine messageKeys_once ?_ (by decide +kernel) (by decide +kernel)
  simp [resumedOnce, Engine.DerivesKeys, greeted, sends, passKey_invertible]

end Instance

end TkTox
