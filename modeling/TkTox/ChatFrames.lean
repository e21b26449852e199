import TkTox.SealedFrames

/-!
What the chat engine hands to toxcore and shows. Every frame is one that a session sealed, and a call
that may not send plain text does not.
-/

namespace TkTox

/-- A frame toxcore was given came out of the session; if `tagged`, it carries the piece it is put
down with. -/
def ChatEffect.Sealed (C : Crypto) (ident : TTE2EEEnv) (tagged : Bool) (s : TTSession) : ChatEffect → Prop
  | .frame _ f (some p) => HandsOut C ident s f (some p.bytes)
  | .frame _ f none => tagged = false ∧ ∃ text, HandsOut C ident s f text
  | .refused f => ∃ text, HandsOut C ident s f text
  | _ => True

/-- Neither a text handed to toxcore as it is nor a message shown, the fixed notice excepted. -/
def ChatEffect.Covert : ChatEffect → Prop
  | .plain _ _ => False
  | .event (.friendMessage text) => text = undecryptable
  | _ => True

structure Held (C : Crypto) (env : ChatEnv) (tagged : Bool) (Q : Prop) (t t' : Chat) : Prop where
  required : t'.required = t.required
  moves : SessionMoves C t.e2ee t'.e2ee
  log : ∃ l, t'.log = t.log ++ l ∧ ∀ e ∈ l, e.Sealed C env.ident tagged t.e2ee ∧ (Q → e.Covert)

section

variable {C : Crypto} {env : ChatEnv} {tagged : Bool} {Q : Prop} {t t' t'' : Chat} {s : TTSession}

theorem ChatEffect.Sealed.of_moves {ident : TTE2EEEnv} {s' : TTSession} {e : ChatEffect} (hm : SessionMoves C s s')
    (h : e.Sealed C ident tagged s') : e.Sealed C ident tagged s := by
  cases e with
  | frame type f piece =>
    cases piece with
    | none =>
      obtain ⟨ht, text, hf⟩ := h
      exact ⟨ht, text, hf.of_moves hm⟩
    | some p => exact HandsOut.of_moves hm h
  | refused f =>
    obtain ⟨text, hf⟩ := h
    exact ⟨text, hf.of_moves hm⟩
  | _ => trivial

theorem ChatEffect.Sealed.refused {ident : TTE2EEEnv} {type : ToxMessageType} {f : Bytes} {piece : Option Piece}
    (h : (ChatEffect.frame type f piece).Sealed C ident tagged s) :
    (ChatEffect.refused f).Sealed C ident tagged s := by
  cases piece with
  | none => exact h.2
  | some p => exact ⟨some p.bytes, h⟩

namespace Held

theorem of_log (hr : t'.required = t.required) (hm : SessionMoves C t.e2ee t'.e2ee) (hl : t'.log = t.log) :
    Held C env tagged Q t t' :=
  ⟨hr, hm, [], by rw [hl, List.append_nil], by simp⟩

theorem refl (t : Chat) : Held C env tagged Q t t := of_log rfl .refl rfl

theorem trans (h : Held C env tagged Q t t') (h' : Held C env tagged Q t' t'') : Held C env tagged Q t t'' := by
  obtain ⟨l, hl, hc⟩ := h.log
  obtain ⟨l', hl', hc'⟩ := h'.log
  refine ⟨h'.required.trans h.required, h.moves.trans h'.moves, l ++ l', ?_, ?_⟩
  · rw [hl', hl, List.append_assoc]
  · intro e he
    obtain he | he := List.mem_append.mp he
    · exact hc e he
    · exact ⟨(hc' e he).1.of_moves h.moves, (hc' e he).2⟩

theorem emit {e : ChatEffect} (hs : e.Sealed C env.ident tagged t.e2ee) (he : Q → e.Covert) :
    Held C env tagged Q t (t.emit e) := by
  refine ⟨rfl, .refl, [e], rfl, ?_⟩
  intro e' he'
  rw [List.mem_singleton.mp he']
  exact ⟨hs, he⟩

theorem setTick (hm : SessionMoves C t.e2ee s) : Held C env tagged Q t (t.setE2ee s).tick :=
  of_log rfl hm rfl

end Held

theorem e2eeSendFrame_held {type : ToxMessageType} {f : Bytes} {piece : Option Piece} (hm : SessionMoves C t.e2ee s)
    (hf : (ChatEffect.frame type f piece).Sealed C env.ident tagged t.e2ee) :
    Held C env tagged Q t (e2eeSendFrame env (t.setE2ee s) type f piece).1 := by
  have hlog (e : ChatEffect) (hs : e.Sealed C env.ident tagged t.e2ee) (hc : e.Covert) :
      Held C env tagged Q t ((t.setE2ee s).tick.emit e) := by
    refine ⟨rfl, hm, [e], rfl, ?_⟩
    intro e' he'
    rw [List.mem_singleton.mp he']
    exact ⟨hs, fun _ => hc⟩
  obtain ⟨mid, -, he⟩ | ⟨-, he⟩ := e2eeSendFrame_cases env (t.setE2ee s) type f piece
  · rw [he]
    exact hlog _ hf trivial
  · rw [he]
    exact hlog _ hf.refused trivial

theorem e2eeWarn_held (t : Chat) (msg : String) : Held C env tagged Q t (e2eeWarn t msg) := by
  rw [e2eeWarn]
  split_ifs
  · exact .refl t
  · have hwarned : Held C env tagged Q t { t with warned := true } := .of_log rfl .refl rfl
    exact hwarned.trans (.emit trivial fun _ => trivial)

theorem requeue_held (t : Chat) (p : Piece) : Held C env tagged Q t (t.requeue p) := by
  have hput : Held C env tagged Q t { t with oq := t.oq.put p.bytes } := .of_log rfl .refl rfl
  exact hput.trans (.emit trivial fun _ => trivial)

theorem requeueAll_held (t : Chat) (ps : List Piece) : Held C env tagged Q t (ps.foldl Chat.requeue t) := by
  induction ps generalizing t with
  | nil => exact .refl t
  | cons p ps ih => exact (requeue_held t p).trans (ih _)

theorem sendChunk_held (C : Crypto) (env : ChatEnv) (t : Chat) (type : ToxMessageType) (p : Piece) :
    Held C env tagged Q t (sendChunk C env t type p).1 := by
  have hmove : SessionMoves C t.e2ee (ttSessionSend C t.e2ee p.bytes ttFrameMax (env.draws t.clock 0)).1 :=
    .one (.send p.bytes ttFrameMax (env.draws t.clock 0)) rfl
  rw [sendChunk]
  dsimp only
  split
  · exact .setTick hmove
  · exact (Held.setTick hmove).trans (.emit trivial fun _ => trivial)
  · rename_i b f h
    exact e2eeSendFrame_held hmove (ttSessionSend_seals h).handsOut

theorem flushText_held (C : Crypto) (env : ChatEnv) (ps : List Piece) (t : Chat) :
    Held C env tagged Q t (flushText C env ps t).1 := by
  induction ps generalizing t with
  | nil => exact .refl t
  | cons p ps ih =>
    have hs : Held C env tagged Q t (sendChunk C env t .normal p).1 := sendChunk_held C env t .normal p
    rw [flushText]
    cases hr : sendChunk C env t .normal p with
    | mk t' ans =>
      rw [hr] at hs
      cases ans with
      | failed => exact hs
      | sent => exact hs.trans (ih t')
      | stashed =>
        cases ps with
        | nil => exact hs
        | cons q qs => exact hs.trans (requeue_held _ _)

theorem flushTexts_held (ps : List Piece) (t : Chat) : Held C env tagged Q t (flushTexts C env ps t) := by
  induction ps generalizing t with
  | nil => exact .refl t
  | cons p ps ih =>
    have hs : Held C env tagged Q t (flushText C env (textChunks p) t).1 := flushText_held C env (textChunks p) t
    rw [flushTexts]
    cases hr : flushText C env (textChunks p) t with
    | mk t' done =>
      rw [hr] at hs
      cases done with
      | true => exact hs.trans (ih t')
      | false => exact hs.trans (requeueAll_held _ _)

theorem sessionFrame_held {f : Bytes} {text : Option Bytes} (hm : SessionMoves C t.e2ee s)
    (hf : HandsOut C env.ident t.e2ee f text) :
    Held C env false Q t (e2eeSendFrame env (t.setE2ee s) .normal f none).1 :=
  e2eeSendFrame_held hm ⟨rfl, text, hf⟩

theorem e2eePump_held (n : ℕ) (t : Chat) : Held C env false Q t (e2eePump C env n t) := by
  induction n generalizing t with
  | zero => exact .refl t
  | succ n ih =>
    have hmove : SessionMoves C t.e2ee (ttSessionFlush C t.e2ee ttFrameMax (env.draws t.clock 0)).1 :=
      .one (.flush ttFrameMax (env.draws t.clock 0)) rfl
    rw [e2eePump]
    dsimp only
    split
    · rename_i b f h
      obtain ⟨text, hf⟩ : ∃ text, Seals C env.ident t.e2ee (b :: f) text := ttSessionFlush_seals h
      have hsent : Held C env false Q t _ := sessionFrame_held hmove hf.handsOut
      split_ifs
      · exact hsent.trans (ih _)
      · exact (hsent.trans (Held.emit (e := .event (.messageSent _)) trivial fun _ => trivial)).trans (ih _)
    · exact .setTick hmove

theorem relPollLoop_held (n : ℕ) (t : Chat) : Held C env false Q t (relPollLoop C env n t) := by
  induction n generalizing t with
  | zero => exact .refl t
  | succ n ih =>
    have hmove : SessionMoves C t.e2ee (ttSessionRelPoll C t.e2ee ttFrameMax (env.draws t.clock)).1 :=
      .one (.relPoll ttFrameMax (env.draws t.clock)) rfl
    rw [relPollLoop]
    split
    · rename_i s b f h
      obtain ⟨text, hf⟩ : ∃ text, HandsOut C env.ident t.e2ee (b :: f) text :=
        ttSessionRelPoll_seals (congrArg Prod.snd h)
      rw [h] at hmove
      exact (sessionFrame_held hmove hf).trans (ih _)
    · rename_i s h
      rw [h] at hmove
      exact .setTick hmove

theorem e2eeRelPoll_held (t : Chat) : Held C env false Q t (e2eeRelPoll C env t) := by
  rw [e2eeRelPoll]
  split_ifs
  · exact .refl t
  · exact relPollLoop_held env.rounds t

theorem e2eeTick_held (t : Chat) : Held C env false Q t (e2eeTick C env t) := by
  rw [e2eeTick]
  split_ifs
  · exact .refl t
  · have hmove : SessionMoves C t.e2ee (ttSessionTick C t.e2ee env.ident (env.draws t.clock 0) (env.now t.clock)
        ttFrameMax).1 := .one (.tick env.ident (env.draws t.clock 0) (env.now t.clock) ttFrameMax) rfl
    dsimp only
    split
    · rename_i b f h
      exact (sessionFrame_held hmove (ttSessionTick_seals h).handsOut).trans (e2eeRelPoll_held _)
    · exact (Held.setTick hmove).trans (e2eeRelPoll_held _)

theorem e2eeStart_held (t : Chat) : Held C env false Q t (e2eeStart C env t) := by
  rw [e2eeStart]
  split_ifs
  · exact .refl t
  · have hmove : SessionMoves C t.e2ee (ttSessionStart C t.e2ee env.ident (env.draws t.clock 0) (env.now t.clock)
        ttFrameMax).1 := .one (.start env.ident (env.draws t.clock 0) (env.now t.clock) ttFrameMax) rfl
    dsimp only
    split
    · rename_i b f h
      have hf : HandsOut C env.ident t.e2ee (b :: f) none := (ttSessionStart_seals h).handsOut.of_moves hmove
      exact (sessionFrame_held hmove hf).trans (.of_log rfl .refl rfl)
    · exact .setTick hmove

theorem rxReply_held (hdue : t.e2ee.replyDue = true) : Held C env false Q t (rxReply C env t) := by
  have hmove : SessionMoves C t.e2ee (ttSessionReply C t.e2ee env.ident (env.draws t.clock 0) ttFrameMax).1 :=
    .one (.reply env.ident (env.draws t.clock 0) ttFrameMax) rfl
  rw [rxReply]
  split
  · rename_i b f h
    exact sessionFrame_held hmove (Seals.reply hdue h).handsOut
  · exact .setTick hmove

theorem flushPlain_held (hQ : ¬ Q) (ps : List Piece) (t : Chat) : Held C env tagged Q t (flushPlain env ps t) := by
  have htick (t : Chat) : Held C env tagged Q t t.tick := .of_log rfl .refl rfl
  induction ps generalizing t with
  | nil => exact .refl t
  | cons p ps ih =>
    rw [flushPlain]
    cases env.message t.clock with
    | ok mid =>
      have hplain := (htick t).trans (.emit (e := .plain .normal p) trivial fun h => absurd h hQ)
      exact (hplain.trans (.emit (e := .event (.messageSent mid)) trivial fun _ => trivial)).trans (ih _)
    | notConnected => exact (htick t).trans (requeueAll_held _ _)
    | other => exact (htick t).trans (ih _)

/-- The layer is on and the friend is in the list. -/
structure LayerOn (env : ChatEnv) : Prop where
  mode : env.mode = true
  friend : env.ident.peerPk ≠ none

theorem offlineFlushFriend_held (t : Chat) (hQ : Q → LayerOn env ∧ t.required = true) :
    Held C env tagged Q t (offlineFlushFriend C env t) := by
  have hempty : Held C env tagged Q t t.emptied := .of_log rfl .refl rfl
  rw [offlineFlushFriend]
  split_ifs with h1 h2 h3 h4
  · exact hempty
  · exact hempty.trans (e2eeWarn_held _ _)
  · have hoff : ¬ Q := fun h => h4 (hQ h).2
    have hfallback : Held C env tagged Q t.emptied { t.emptied with fallback := true } := .of_log rfl .refl rfl
    have hwarn := (hempty.trans hfallback).trans (e2eeWarn_held _ queuePlainWarn)
    exact (hwarn.trans (flushPlain_held hoff _ _)).trans (.emit trivial fun _ => trivial)
  · exact (hempty.trans (flushTexts_held _ _)).trans (.emit trivial fun _ => trivial)
  · have hoff : ¬ Q := fun h => h2 ⟨(hQ h).1.mode, (hQ h).1.friend⟩
    exact (hempty.trans (flushPlain_held hoff _ _)).trans (.emit trivial fun _ => trivial)

end

end TkTox
