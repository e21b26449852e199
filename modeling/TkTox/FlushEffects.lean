import TkTox.TextPieces

/-!
What a stretch of a flush or of a send loop did with the bytes, and what one chunk does: it goes to
toxcore, to the stash of the session, or nowhere.
-/

namespace TkTox

namespace ChatEffect

def handedPiece : ChatEffect → Option Piece
  | .frame _ _ p => p
  | .plain _ p => some p
  | _ => none

def stashedPiece : ChatEffect → Option Piece
  | .stashed p => some p
  | _ => none

def queuedPiece : ChatEffect → Option Piece
  | .queued p => some p
  | _ => none

end ChatEffect

open ChatEffect

structure Did (t t' : Chat) (h s q : List Piece) : Prop where
  log : ∃ l, t'.log = t.log ++ l ∧ l.filterMap handedPiece = h ∧ l.filterMap stashedPiece = s ∧
    l.filterMap queuedPiece = q
  active : t'.e2ee.active = t.e2ee.active
  pending : t'.e2ee.pending = t.e2ee.pending ++ s.map Piece.bytes
  queue : t'.oq.messages = t.oq.messages ++ q.map Piece.bytes
  wf : t'.oq.Wf

variable {t t' t'' : Chat} {h s q h' s' q' : List Piece}

theorem Did.trans (d : Did t t' h s q) (d' : Did t' t'' h' s' q') :
    Did t t'' (h ++ h') (s ++ s') (q ++ q') := by
  obtain ⟨l, hl, hh, hs, hq⟩ := d.log
  obtain ⟨l', hl', hh', hs', hq'⟩ := d'.log
  refine ⟨⟨l ++ l', ?_, ?_, ?_, ?_⟩, ?_, ?_, ?_, d'.wf⟩
  · rw [hl', hl, List.append_assoc]
  · rw [List.filterMap_append, hh, hh']
  · rw [List.filterMap_append, hs, hs']
  · rw [List.filterMap_append, hq, hq']
  · rw [d'.active, d.active]
  · rw [d'.pending, d.pending, List.map_append, List.append_assoc]
  · rw [d'.queue, d.queue, List.map_append, List.append_assoc]

theorem Did.of_log (hwf : t.oq.Wf) (hoq : t'.oq = t.oq) (ha : t'.e2ee.active = t.e2ee.active)
    (hp : t'.e2ee.pending = t.e2ee.pending) {l : List ChatEffect} (hl : t'.log = t.log ++ l)
    (hh : l.filterMap handedPiece = h) (hs : l.filterMap stashedPiece = [])
    (hq : l.filterMap queuedPiece = []) : Did t t' h [] [] where
  log := ⟨l, hl, hh, hs, hq⟩
  active := ha
  pending := by simp [hp]
  queue := by simp [hoq]
  wf := by rwa [hoq]

theorem Did.refl (hwf : t.oq.Wf) : Did t t [] [] [] :=
  Did.of_log hwf rfl rfl rfl (l := []) (by simp) rfl rfl rfl

theorem did_tick (hwf : t.oq.Wf) : Did t t.tick [] [] [] :=
  Did.of_log hwf rfl rfl rfl (l := []) (by simp) rfl rfl rfl

theorem did_event (hwf : t.oq.Wf) (ev : ChatEvent) : Did t (t.emit (.event ev)) [] [] [] :=
  Did.of_log hwf rfl rfl rfl (l := [.event ev]) rfl rfl rfl rfl

theorem did_requeue (hwf : t.oq.Wf) (hroom : t.oq.messages.length < ttOqMaxPerFriend) {p : Piece}
    (hp : p.Text) : Did t (t.requeue p) [] [] [p] where
  log := ⟨[.queued p], rfl, rfl, rfl, rfl⟩
  active := rfl
  pending := by simp [Chat.requeue]
  queue := hwf.messages_put hroom hp.ne hp.cstr hp.short
  wf := TTOqFriend.put_wf hwf p.bytes

theorem did_requeueAll (ps : List Piece) (hwf : t.oq.Wf)
    (hroom : t.oq.messages.length + ps.length ≤ ttOqMaxPerFriend) (hps : ∀ p ∈ ps, p.Text) :
    Did t (ps.foldl Chat.requeue t) [] [] ps := by
  induction ps generalizing t with
  | nil => exact Did.refl hwf
  | cons p ps ih =>
    rw [List.length_cons] at hroom
    have d := did_requeue hwf (by omega) (hps p (List.mem_cons_self ..))
    have hlen : (t.requeue p).oq.messages.length = t.oq.messages.length + 1 := by
      rw [d.queue]
      simp
    exact d.trans (ih d.wf (by omega) fun r hr => hps r (List.mem_cons_of_mem _ hr))

variable {C : Crypto} {env : ChatEnv}

def Taken (C : Crypto) (env : ChatEnv) (t : Chat) (p : Piece) : Prop :=
  (∃ b f, (ttSessionSend C t.e2ee p.bytes ttFrameMax (env.draws t.clock 0)).2 = .ok (b :: f)) ∧
    ∃ mid, env.message t.clock = .ok mid

theorem sendChunk_active (C : Crypto) (env : ChatEnv) (ha : t.e2ee.active = true) (hwf : t.oq.Wf) (type : ToxMessageType) {p : Piece}
    (hp : p.bytes.length ≤ ttE2eeChunk) :
    ((sendChunk C env t type p).2 = .sent ∧ Did t (sendChunk C env t type p).1 [p] [] []) ∨
      ((sendChunk C env t type p).2 = .failed ∧ ¬ Taken C env t p ∧
        Did t (sendChunk C env t type p).1 [] [] []) ∨
      ((sendChunk C env t type p).2 = .failed ∧ Taken C env t p ∧
        Did t (sendChunk C env t type p).1 [p] [] []) := by
  have hs : ttSessionSend C t.e2ee p.bytes ttFrameMax (env.draws t.clock 0) =
      emitFrame C t.e2ee (fun _ => p.bytes) ttFrameMax false (env.draws t.clock 0) := by
    unfold ttSessionSend
    rw [if_neg (Nat.not_lt.mpr hp), if_neg (by simp [ha])]
  obtain ⟨hact, hpend⟩ := emitFrame_pending C t.e2ee (fun _ => p.bytes) ttFrameMax false
    (env.draws t.clock 0)
  have hne := emitFrame_ne_nil C t.e2ee (fun _ => p.bytes) ttFrameMax false (env.draws t.clock 0)
  unfold sendChunk Taken
  rw [hs]
  dsimp only
  cases hr : (emitFrame C t.e2ee (fun _ => p.bytes) ttFrameMax false (env.draws t.clock 0)).2 with
  | error e =>
    refine Or.inr (Or.inl ⟨rfl, ?_, ?_⟩)
    · simp
    · exact Did.of_log hwf rfl hact hpend (l := []) (by simp) rfl rfl rfl
  | ok f =>
    cases f with
    | nil => exact absurd hr hne
    | cons b f =>
      dsimp only
      obtain ⟨mid, hm, he⟩ | ⟨hm, he⟩ := e2eeSendFrame_cases env (t.setE2ee (emitFrame C t.e2ee
        (fun _ => p.bytes) ttFrameMax false (env.draws t.clock 0)).1) type (b :: f) (some p)
      · rw [he]
        have d : Did t ((t.setE2ee (emitFrame C t.e2ee (fun _ => p.bytes) ttFrameMax false
            (env.draws t.clock 0)).1).tick.emit (.frame type (b :: f) (some p))) [p] [] [] :=
          Did.of_log hwf rfl hact hpend (l := [.frame type (b :: f) (some p)]) rfl rfl rfl rfl
        by_cases h0 : mid = 0
        · exact Or.inr (Or.inr ⟨if_pos h0, ⟨⟨b, f, rfl⟩, mid, hm⟩, d⟩)
        · exact Or.inl ⟨if_neg h0, d⟩
      · rw [he]
        refine Or.inr (Or.inl ⟨rfl, ?_, ?_⟩)
        · rintro ⟨-, mid, h⟩
          exact hm mid h
        · exact Did.of_log hwf rfl hact hpend (l := [.refused (b :: f)]) rfl rfl rfl rfl

theorem sendChunk_inactive (C : Crypto) (env : ChatEnv) (ha : t.e2ee.active = false) (hwf : t.oq.Wf) (type : ToxMessageType)
    {p : Piece} (hp : p.bytes.length ≤ ttE2eeChunk) (hne : p.bytes ≠ []) :
    (t.e2ee.pending.length < ttSessionPendingMax ∧ (sendChunk C env t type p).2 = .stashed ∧
        Did t (sendChunk C env t type p).1 [] [p] []) ∨
      (ttSessionPendingMax ≤ t.e2ee.pending.length ∧ (sendChunk C env t type p).2 = .failed ∧
        Did t (sendChunk C env t type p).1 [] [] []) := by
  have hpos : p.bytes.length > 0 := List.length_pos_iff.mpr hne
  unfold sendChunk ttSessionSend
  rw [if_neg (Nat.not_lt.mpr hp), if_pos ha]
  by_cases hfull : t.e2ee.pending.length ≥ ttSessionPendingMax
  · rw [if_pos hfull]
    exact Or.inr ⟨hfull, rfl, Did.of_log hwf rfl rfl rfl (l := []) (by simp) rfl rfl rfl⟩
  · rw [if_neg hfull, if_pos hpos]
    refine Or.inl ⟨Nat.not_le.mp hfull, rfl, ?_⟩
    exact ⟨⟨[.stashed p], rfl, rfl, rfl, rfl⟩, rfl, rfl, by simp, hwf⟩

end TkTox
