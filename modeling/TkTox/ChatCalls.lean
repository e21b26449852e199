import TkTox.ChatLink
import TkTox.SubmitText

/-!
The calls of the chat engine on a session in good order: what they put on the link, what they show
and what becomes of the texts that wait. Toxcore takes every message it is given.
-/

namespace TkTox

namespace ChatEffect

def packet : ChatEffect → Option Bytes
  | .frame _ f _ => some f
  | .plain _ p => some p.bytes
  | _ => none

def shown : ChatEffect → Option Bytes
  | .event (.friendMessage text) => some text
  | _ => none

end ChatEffect

open ChatEffect

structure Acts (t t' : Chat) (out texts : List Bytes) : Prop where
  log : ∃ l, t'.log = t.log ++ l ∧ l.filterMap packet = out ∧ l.filterMap shown = texts
  flushing : t'.oqFlushing = t.oqFlushing

def TakesAll (env : ChatEnv) : Prop := ∀ n, ∃ mid, mid ≠ 0 ∧ env.message n = .ok mid

variable {C : Crypto} {env : ChatEnv} {t t' t'' : Chat} {out out' texts texts' : List Bytes}

namespace Acts

theorem of_log (h : t'.log = t.log) (hf : t'.oqFlushing = t.oqFlushing) : Acts t t' [] [] :=
  ⟨⟨[], by rw [h, List.append_nil], rfl, rfl⟩, hf⟩

theorem refl (t : Chat) : Acts t t [] [] := of_log rfl rfl

theorem trans (h : Acts t t' out texts) (h' : Acts t' t'' out' texts') :
    Acts t t'' (out ++ out') (texts ++ texts') := by
  obtain ⟨l, hl, ho, ht⟩ := h.log
  obtain ⟨l', hl', ho', ht'⟩ := h'.log
  refine ⟨⟨l ++ l', ?_, ?_, ?_⟩, h'.flushing.trans h.flushing⟩
  · rw [hl', hl, List.append_assoc]
  · rw [List.filterMap_append, ho, ho']
  · rw [List.filterMap_append, ht, ht']

theorem emit (t : Chat) (e : ChatEffect) : Acts t (t.emit e) e.packet.toList e.shown.toList := by
  refine ⟨⟨[e], rfl, ?_, ?_⟩, rfl⟩
  · cases h : e.packet <;> simp [h]
  · cases h : e.shown <;> simp [h]

end Acts

structure LiveChat (C : Crypto) (t : Chat) : Prop where
  keys : RekeyKeys C t.e2ee
  resends : NoResends t.e2ee

structure Talks (C : Crypto) (t t' : Chat) (l : List LinkFrame) : Prop where
  acts : Acts t t' (l.map LinkFrame.frame) []
  emits : Emits C t.e2ee l t'.e2ee
  resends : NoResends t.e2ee → NoResends t'.e2ee

variable {l l' : List LinkFrame}

namespace Talks

theorem trans (h : Talks C t t' l) (h' : Talks C t' t'' l') : Talks C t t'' (l ++ l') := by
  refine ⟨?_, h.emits.trans h'.emits, fun hn => h'.resends (h.resends hn)⟩
  rw [List.map_append]
  exact h.acts.trans h'.acts

theorem of_same (ha : Acts t t' [] []) (hs : t'.e2ee = t.e2ee) : Talks C t t' [] := by
  refine ⟨ha, ?_, fun hn => hs ▸ hn⟩
  rw [hs]
  exact .nil

theorem refl (t : Chat) : Talks C t t [] := of_same (.refl t) rfl

theorem event (t : Chat) {ev : ChatEvent} (h : shown (.event ev) = none) :
    Talks C t (t.emit (.event ev)) [] := by
  apply of_same
  · have := Acts.emit t (.event ev)
    rw [h] at this
    exact this
  · rfl

theorem live (h : Talks C t t' l) (hl : LiveChat C t) : LiveChat C t' :=
  ⟨h.emits.keys hl.keys, h.resends hl.resends⟩

end Talks

theorem e2eeSendFrame_takesAll (hT : TakesAll env) (t : Chat) (type : ToxMessageType) (f : Bytes)
    (piece : Option Piece) : ∃ mid, mid ≠ 0 ∧
      e2eeSendFrame env t type f piece = (t.tick.emit (.frame type f piece), mid) := by
  obtain ⟨mid, h0, hm⟩ := hT t.clock
  refine ⟨mid, h0, ?_⟩
  rw [e2eeSendFrame, hm]

theorem textChunks_short {p : Piece} (hne : p.bytes ≠ []) (hl : p.bytes.length ≤ ttE2eeChunk) :
    textChunks p = [p] := by
  have hd : p.bytes.drop ttE2eeChunk = [] := List.drop_eq_nil_of_le hl
  have hnil (n start : ℕ) : chunksFrom n start [] = [] := by cases n <;> simp [chunksFrom]
  obtain ⟨n, hn⟩ := Nat.exists_eq_add_one.mpr (List.length_pos_iff.mpr hne)
  rw [textChunks, hn, chunksFrom, if_neg hne, hd, hnil, List.take_of_length_le hl]

theorem sendChunk_live (hC : C.AeadCorrect) (hT : TakesAll env) (hL : LiveChat C t)
    (type : ToxMessageType) {p : Piece} (hroom : RekeyRoom C p.bytes) :
    ∃ m t', sendChunk C env t type p = (t', .sent) ∧ m.text = p.bytes ∧ Talks C t t' [.text m] ∧
      t'.oq = t.oq ∧ t'.e2ee.pending = t.e2ee.pending := by
  obtain ⟨m, hm, hne, ht, hspec, hshake, hp, hn⟩ :=
    ttSessionSend_live hC hL.keys hroom (env.draws t.clock 0)
  obtain ⟨b, f, hbf⟩ := List.exists_cons_of_ne_nil hne
  rw [hbf] at hm
  obtain ⟨mid, h0, hs⟩ := e2eeSendFrame_takesAll hT
    (t.setE2ee (ttSessionSend C t.e2ee p.bytes ttFrameMax (env.draws t.clock 0)).1) type (b :: f) (some p)
  set s' := (ttSessionSend C t.e2ee p.bytes ttFrameMax (env.draws t.clock 0)).1 with hs'
  refine ⟨m, (t.setE2ee s').tick.emit (.frame type (b :: f) (some p)), ?_, ht,
    ⟨?_, .text hspec hshake .nil, hn⟩, rfl, hp⟩
  · simp only [sendChunk, hm, ← hs', hs, if_neg h0]
  · refine ⟨⟨[.frame type (b :: f) (some p)], rfl, ?_, rfl⟩, rfl⟩
    rw [List.map_singleton, LinkFrame.frame, hbf]
    rfl

theorem flushTexts_live (hC : C.AeadCorrect) (hT : TakesAll env) {ps : List Piece}
    (hps : ∀ p ∈ ps, p.bytes ≠ [] ∧ RekeyRoom C p.bytes) (hL : LiveChat C t) :
    ∃ l, Talks C t (flushTexts C env ps t) l ∧ linkTexts l = ps.map Piece.bytes ∧
      (flushTexts C env ps t).oq = t.oq ∧ (flushTexts C env ps t).e2ee.pending = t.e2ee.pending := by
  induction ps generalizing t with
  | nil => exact ⟨[], .refl t, rfl, rfl, rfl⟩
  | cons p ps ih =>
    obtain ⟨hne, hroom⟩ := hps p (List.mem_cons_self ..)
    obtain ⟨m, u, hs, hm, hu, hoq, hp⟩ := sendChunk_live hC hT hL .normal hroom
    obtain ⟨l, hl, ht, hoq', hp'⟩ := ih (fun q hq => hps q (List.mem_cons_of_mem _ hq)) (hu.live hL)
    have hflush : flushTexts C env (p :: ps) t = flushTexts C env ps u := by
      rw [flushTexts, textChunks_short hne hroom.le]
      simp only [flushText, hs]
    rw [hflush]
    refine ⟨.text m :: l, hu.trans hl, ?_, hoq'.trans hoq, hp'.trans hp⟩
    rw [linkTexts_text, hm, ht, List.map_cons]

theorem offlineFlushFriend_live (hC : C.AeadCorrect) (hT : TakesAll env) (hmode : env.mode = true)
    (hpk : env.ident.peerPk ≠ none) (hL : LiveChat C t) (hwf : t.oq.Wf)
    (htexts : ∀ b ∈ t.oq.messages, RekeyRoom C b) :
    ∃ l, Talks C t (offlineFlushFriend C env t) l ∧ linkTexts l = t.oq.messages ∧
      (offlineFlushFriend C env t).oq.messages = [] ∧ (offlineFlushFriend C env t).oq.Wf ∧
      (offlineFlushFriend C env t).e2ee.pending = t.e2ee.pending := by
  obtain ⟨hw, hempty⟩ := hwf.takeAll
  have hem : Talks C t t.emptied [] := .of_same (.of_log rfl rfl) rfl
  unfold offlineFlushFriend
  dsimp only
  rw [TTOqFriend.takeAll_texts]
  by_cases h0 : t.oq.messages = []
  · rw [if_pos h0, h0]
    exact ⟨[], hem, rfl, hempty, hw, rfl⟩
  have hdue : ¬ e2eeFallbackDue env t.emptied = true := by
    have ha : t.emptied.e2ee.active = true := hL.keys.active
    simp [e2eeFallbackDue, ha]
  have hps : ∀ p ∈ textPieces 0 t.oq.messages, p.bytes ≠ [] ∧ RekeyRoom C p.bytes := by
    intro p hp
    have hb : p.bytes ∈ (textPieces 0 t.oq.messages).map Piece.bytes := List.mem_map_of_mem hp
    rw [textPieces_bytes] at hb
    exact ⟨(hwf.texts _ hb).1, htexts _ hb⟩
  obtain ⟨l, hl, ht, hoq, hp⟩ := flushTexts_live hC hT hps (hem.live hL)
  rw [if_neg h0, if_pos ⟨hmode, hpk⟩, if_neg hdue]
  refine ⟨l, ?_, ?_, ?_, ?_, hp⟩
  · have := (hem.trans hl).trans 
      (.event _ (show shown (.event (.offlineFlushed t.oq.messages.length)) = none from rfl))
    rwa [List.nil_append, List.append_nil] at this
  · rw [ht, textPieces_bytes]
  · rw [Chat.emit_oq, hoq]
    exact hempty
  · rw [Chat.emit_oq, hoq]
    exact hw

theorem ttSessionFlush_cons {s : TTSession} {text : Bytes} {rest : List Bytes} {cap : ℕ} {ρ : Draws}
    (ha : s.active = true) (hp : s.pending = text :: rest) (hle : text.length ≤ ttFrameDataMax)
    {b : UInt8} {f : Bytes} (hs : (ttSessionSend C s text cap ρ).2 = .ok (b :: f)) :
    ttSessionFlush C s cap ρ =
      ({ (ttSessionSend C s text cap ρ).1 with pending := rest }, .ok (b :: f)) := by
  have he : ttSessionSend C s text cap ρ = emitFrame C s (fun _ => text) cap false ρ := by
    rw [ttSessionSend, if_neg (not_lt.mpr hle), if_neg (by simp [ha])]
  rw [he] at hs ⊢
  unfold ttSessionFlush
  rw [ha, hp]
  dsimp only
  cases hr : emitFrame C s (fun _ => text) cap false ρ with
  | mk s' r =>
    rw [hr] at hs
    cases hs
    rfl

theorem e2eePump_live (hC : C.AeadCorrect) (hT : TakesAll env) (n : ℕ) (hn : t.e2ee.pending.length = n)
    (htexts : ∀ b ∈ t.e2ee.pending, RekeyRoom C b) (hL : LiveChat C t) :
    ∃ l, Talks C t (e2eePump C env n t) l ∧ linkTexts l = t.e2ee.pending ∧
      (e2eePump C env n t).oq = t.oq ∧ (e2eePump C env n t).e2ee.pending = [] := by
  induction n generalizing t with
  | zero =>
    have hnil := List.length_eq_zero_iff.mp hn
    exact ⟨[], .refl t, hnil.symm, rfl, hnil⟩
  | succ n ih =>
    obtain ⟨text, rest, hp⟩ := List.exists_cons_of_length_eq_add_one hn
    rw [hp] at htexts hn ⊢
    have hroom := htexts text (List.mem_cons_self ..)
    obtain ⟨m, hm, hne, ht, hspec, hshake, -, hres⟩ :=
      ttSessionSend_live hC hL.keys hroom (env.draws t.clock 0)
    obtain ⟨b, f, hbf⟩ := List.exists_cons_of_ne_nil hne
    rw [hbf] at hm
    have hflush := ttSessionFlush_cons hL.keys.active hp hroom.le hm
    set s' : TTSession :=
      { (ttSessionSend C t.e2ee text ttFrameMax (env.draws t.clock 0)).1 with pending := rest }
    obtain ⟨mid, h0, hs⟩ := e2eeSendFrame_takesAll hT (t.setE2ee s') .normal (b :: f) none
    have hpump : e2eePump C env (n + 1) t = e2eePump C env n
        (((t.setE2ee s').tick.emit (.frame .normal (b :: f) none)).emit (.event (.messageSent mid))) := by
      simp only [e2eePump, hflush, hs, if_neg h0]
    rw [hpump]
    have hlink : SameLink (ttSessionSend C t.e2ee text ttFrameMax (env.draws t.clock 0)).1 s' :=
      ⟨⟨rfl, rfl, rfl, rfl, rfl, rfl⟩, rfl, rfl, rfl⟩
    have hu : Talks C t
        (((t.setE2ee s').tick.emit (.frame .normal (b :: f) none)).emit (.event (.messageSent mid)))
        [.text m] := by
      refine ⟨⟨⟨[.frame .normal (b :: f) none, .event (.messageSent mid)], ?_, ?_, rfl⟩, rfl⟩,
        .text hspec hshake (.of_link hlink), fun h => ⟨(hres h).request, (hres h).reply⟩⟩
      · simp
      · rw [List.map_singleton, LinkFrame.frame, hbf]
        rfl
    obtain ⟨l, hl, htl, hoq, hpl⟩ := ih (t := ((t.setE2ee s').tick.emit (.frame .normal (b :: f) none)).emit
      (.event (.messageSent mid))) (by simpa using hn)
      (fun c hc => htexts c (List.mem_cons_of_mem _ hc)) (hu.live hL)
    refine ⟨.text m :: l, hu.trans hl, ?_, hoq, hpl⟩
    rw [linkTexts_text, ht, htl]
    rfl

theorem rxEstablished_live (hC : C.AeadCorrect) (hT : TakesAll env) (hmode : env.mode = true)
    (hpk : env.ident.peerPk ≠ none) (hL : LiveChat C t) (hwf : t.oq.Wf) (hq : t.oqFlushing = false)
    (htexts : ∀ b ∈ t.e2ee.pending ++ t.oq.messages, RekeyRoom C b) (wasActive : Bool) :
    ∃ l, Talks C t (rxEstablished C env t wasActive) l ∧
      linkTexts l = t.e2ee.pending ++ t.oq.messages ∧
      (rxEstablished C env t wasActive).e2ee.pending = [] ∧
      (rxEstablished C env t wasActive).oq.messages = [] ∧
      (rxEstablished C env t wasActive).oq.Wf := by
  -- the policy is noted first
  obtain ⟨u, hu, hut, hoq, hpend⟩ : ∃ u, rxEstablished C env t wasActive =
      (if (e2eePump C env t.e2ee.pending.length u).oq.count > 0 ∧
          (e2eePump C env t.e2ee.pending.length u).oqFlushing = false then
        offlineFlushFriend C env (e2eePump C env t.e2ee.pending.length u)
      else e2eePump C env t.e2ee.pending.length u) ∧
      Talks C t u [] ∧ u.oq = t.oq ∧ u.e2ee.pending = t.e2ee.pending := by
    unfold rxEstablished
    by_cases h1 : (!wasActive && !t.required) = true
    · have h2 : Talks C t { t with fallback := false, required := true } [] :=
        .of_same (.of_log rfl rfl) rfl
      refine ⟨({ t with fallback := false, required := true } : Chat).emit (.event (.e2eeEnforce true)),
        ?_, h2.trans (.event _ rfl), rfl, rfl⟩
      dsimp only
      rw [if_pos h1]
      rfl
    · refine ⟨{ t with fallback := false }, ?_, .of_same (.of_log rfl rfl) rfl, rfl, rfl⟩
      dsimp only
      rw [if_neg h1]
  rw [hu]
  obtain ⟨l, hl, htl, hoql, hpl⟩ := e2eePump_live hC hT t.e2ee.pending.length (by rw [hpend])
    (fun b hb => htexts b (List.mem_append_left _ (hpend ▸ hb))) (hut.live hL)
  have hall := hut.trans hl
  rw [List.nil_append] at hall
  rw [hoq] at hoql
  rw [hpend] at htl
  by_cases hc : t.oq.count > 0
  · have hlive := hall.live hL
    obtain ⟨l', hl', ht', hm', hw', hp'⟩ := offlineFlushFriend_live hC hT hmode hpk hlive
      (by rwa [hoql]) (fun b hb => htexts b (List.mem_append_right _ (hoql ▸ hb)))
    rw [if_pos ⟨by rwa [hoql], by rw [hall.acts.flushing, hq]⟩]
    refine ⟨l ++ l', hall.trans hl', ?_, by rw [hp', hpl], hm', hw'⟩
    rw [linkTexts_append, htl, ht', hoql]
  · have hnil : t.oq.messages = [] := by
      apply List.length_eq_zero_iff.mp
      rw [hwf.messages_length]
      omega
    rw [if_neg (by rw [hoql]; exact fun h => hc h.1)]
    refine ⟨l, hall, ?_, hpl, by rw [hoql, hnil], by rwa [hoql]⟩
    rw [htl, hnil, List.append_nil]

theorem relPollLoop_calm (hT : TakesAll env) (n : ℕ) (hn : NoResends t.e2ee) :
    ∃ l, Talks C t (relPollLoop C env n t) l ∧ linkSents l = [] ∧
      (relPollLoop C env n t).oq = t.oq ∧ (relPollLoop C env n t).e2ee.pending = t.e2ee.pending := by
  induction n generalizing t with
  | zero => exact ⟨[], .refl t, rfl, rfl, rfl⟩
  | succ n ih =>
    obtain ⟨due, hs, hf⟩ := ttSessionRelPoll_ack (C := C) hn ttFrameMax (env.draws t.clock)
    have hlink : SameLink t.e2ee { t.e2ee with rel := { t.e2ee.rel with ackDue := due } } :=
      ⟨⟨rfl, rfl, rfl, rfl, rfl, rfl⟩, rfl, rfl, rfl⟩
    rw [relPollLoop]
    cases hr : ttSessionRelPoll C t.e2ee ttFrameMax (env.draws t.clock) with
    | mk s out =>
      rw [hr] at hs hf
      dsimp only at hs hf
      subst hs
      cases out with
      | nil =>
        refine ⟨[], ⟨.of_log rfl rfl, .of_link hlink, fun h => ⟨h.request, h.reply⟩⟩, rfl, rfl, rfl⟩
      | cons b f =>
        have hack := hf.resolve_left (List.cons_ne_nil b f)
        obtain ⟨mid, -, he⟩ := e2eeSendFrame_takesAll hT (t.setE2ee _) .normal (b :: f) none
        dsimp only
        rw [he]
        have hu : Talks C t ((t.setE2ee { t.e2ee with rel := { t.e2ee.rel with ackDue := due } }).tick.emit
            (.frame .normal (b :: f) none)) [.ack (b :: f)] :=
          ⟨⟨⟨[.frame .normal (b :: f) none], rfl, rfl, rfl⟩, rfl⟩, .ack hack (.of_link hlink),
            fun h => ⟨h.request, h.reply⟩⟩
        obtain ⟨l, hl, ht, hoq, hp⟩ := ih (hu.resends hn)
        exact ⟨.ack (b :: f) :: l, hu.trans hl, ht, hoq, hp⟩

theorem e2eeRelPoll_calm (hT : TakesAll env) (hn : NoResends t.e2ee) :
    ∃ l, Talks C t (e2eeRelPoll C env t) l ∧ linkSents l = [] ∧
      (e2eeRelPoll C env t).oq = t.oq ∧ (e2eeRelPoll C env t).e2ee.pending = t.e2ee.pending := by
  unfold e2eeRelPoll
  split_ifs
  · exact ⟨[], .refl t, rfl, rfl, rfl⟩
  · exact relPollLoop_calm hT env.rounds hn

theorem e2eeRelPoll_idle (ha : t.e2ee.active = false) :
    (e2eeRelPoll C env t).e2ee = t.e2ee ∧ (e2eeRelPoll C env t).oq = t.oq ∧
      Acts t (e2eeRelPoll C env t) [] [] := by
  unfold e2eeRelPoll
  split_ifs
  · exact ⟨rfl, rfl, .refl t⟩
  · cases env.rounds with
    | zero => exact ⟨rfl, rfl, .refl t⟩
    | succ n =>
      have hp : ttSessionRelPoll C t.e2ee ttFrameMax (env.draws t.clock) = (t.e2ee, []) := by
        rw [ttSessionRelPoll, if_pos ha]
      rw [relPollLoop, hp]
      exact ⟨rfl, rfl, .of_log rfl rfl⟩

def handedOut (f : Bytes) : List Bytes := if f = [] then [] else [f]

theorem rxAnswer_receive (C : Crypto) (hT : TakesAll env) (t : Chat) (f : Bytes) :
    ∃ σ u, rxAnswer C env (t.setE2ee (ttSessionFeed C t.e2ee env.ident (env.draws t.clock 0) f
          ttFrameDataMax).session).tick (.ok []) = u ∧
      u.e2ee = (receive C t.e2ee env.ident (env.draws t.clock 0) σ f).1 ∧ u.oq = t.oq ∧
      Acts t u (handedOut (receive C t.e2ee env.ident (env.draws t.clock 0) σ f).2) [] := by
  refine ⟨env.draws (t.clock + 1) 0, _, rfl, ?_⟩
  set s := (ttSessionFeed C t.e2ee env.ident (env.draws t.clock 0) f ttFrameDataMax).session with hs
  have hset : Acts t (t.setE2ee s).tick [] [] := .of_log rfl rfl
  rw [rxAnswer]
  by_cases hdue : s.replyDue = true
  · have hr : receive C t.e2ee env.ident (env.draws t.clock 0) (env.draws (t.clock + 1) 0) f =
        ((ttSessionReply C s env.ident (env.draws (t.clock + 1) 0) ttFrameMax).1,
          okBytes (ttSessionReply C s env.ident (env.draws (t.clock + 1) 0) ttFrameMax).2) := by
      simp only [receive, ← hs, if_pos hdue]
    rw [if_pos (show (t.setE2ee s).tick.e2ee.replyDue = true from hdue), hr, rxReply]
    change _ ∧ _ ∧ Acts t _ _ _
    cases hq : ttSessionReply C s env.ident (env.draws (t.clock + 1) 0) ttFrameMax with
    | mk s' r =>
      have hq' : ttSessionReply C (t.setE2ee s).tick.e2ee env.ident
          (env.draws (t.setE2ee s).tick.clock 0) ttFrameMax = (s', r) := hq
      simp only [hq']
      cases r with
      | error e => exact ⟨rfl, rfl, .of_log rfl rfl⟩
      | ok g =>
        cases g with
        | nil => exact ⟨rfl, rfl, .of_log rfl rfl⟩
        | cons b g =>
          obtain ⟨mid, -, he⟩ := e2eeSendFrame_takesAll hT ((t.setE2ee s).tick.setE2ee s') .normal (b :: g) none
          simp only [he, okBytes]
          exact ⟨rfl, rfl, ⟨[.frame .normal (b :: g) none], rfl, rfl, rfl⟩, rfl⟩
  · have hr : receive C t.e2ee env.ident (env.draws t.clock 0) (env.draws (t.clock + 1) 0) f = (s, []) := by
      simp only [receive, ← hs, if_neg hdue]
    rw [if_neg (show ¬ (t.setE2ee s).tick.e2ee.replyDue = true from hdue), hr]
    exact ⟨rfl, rfl, hset⟩

theorem cbFriendMessage_consumed (hmode : env.mode = true) {f str : Bytes}
    (h : e2eeRx C env t f = (t', str, true)) : cbFriendMessage C env true t f = t' := by
  rw [cbFriendMessage, if_pos rfl, if_pos hmode, h]

theorem NewSession.live {root : Key} {b : Bool} {s : TTSession} (h : NewSession C s root b) :
    RekeyKeys C s := by
  obtain ⟨h1, h2, h3, -, h5, h6, h7⟩ := h.just
  refine ⟨h1, h2, h5, h6, h7, ?_⟩
  rw [h3]
  exact Nat.one_lt_two_pow (by decide)

theorem cbFriendMessage_establishes (hC : C.AeadCorrect) (hT : TakesAll env) (hmode : env.mode = true)
    (hpk : env.ident.peerPk ≠ none) {f : Bytes} (ha : t.e2ee.active = false)
    (hh : (ttSessionFeed C t.e2ee env.ident (env.draws t.clock 0) f ttFrameDataMax).handshaked = true)
    (hret : (ttSessionFeed C t.e2ee env.ident (env.draws t.clock 0) f ttFrameDataMax).ret = .ok [])
    (hnew : ∀ σ, (∃ root b, NewSession C (receive C t.e2ee env.ident (env.draws t.clock 0) σ f).1 root b) ∧
      (receive C t.e2ee env.ident (env.draws t.clock 0) σ f).1.pending = t.e2ee.pending ∧
      (receive C t.e2ee env.ident (env.draws t.clock 0) σ f).1.rel = t.e2ee.rel)
    (hres : NoResends t.e2ee) (hwf : t.oq.Wf) (hq : t.oqFlushing = false)
    (htexts : ∀ b ∈ t.e2ee.pending ++ t.oq.messages, RekeyRoom C b) :
    ∃ σ l t', cbFriendMessage C env true t f = t' ∧
      Acts t t' (handedOut (receive C t.e2ee env.ident (env.draws t.clock 0) σ f).2 ++
        l.map LinkFrame.frame) [] ∧
      Emits C (receive C t.e2ee env.ident (env.draws t.clock 0) σ f).1 l t'.e2ee ∧
      linkTexts l = t.e2ee.pending ++ t.oq.messages ∧ NoResends t'.e2ee ∧
      t'.e2ee.pending = [] ∧ t'.oq.messages = [] ∧ t'.oq.Wf := by
  obtain ⟨σ, u, hu, hus, huq, hua⟩ := rxAnswer_receive C hT t f
  obtain ⟨⟨root, b, hn⟩, hp, hrel⟩ := hnew σ
  rw [← hus] at hn hp hrel
  have hL : LiveChat C u := ⟨hn.live, hres.of_rel (by rw [hrel]) (by rw [hrel])⟩
  rw [← huq, ← hp] at htexts
  obtain ⟨l, hl, ht, hpl, hoql, hwl⟩ := rxEstablished_live hC hT hmode hpk hL (by rwa [huq])
    (by rw [hua.flushing, hq]) htexts false
  have hact : (rxEstablished C env u false).e2ee.active = true := (hl.live hL).keys.active
  have hrx : e2eeRx C env t f = (e2eePushState (rxEstablished C env u false) true, f, true) := by
    have hua' : u.e2ee.active = true := hL.keys.active
    simp only [e2eeRx, if_neg hpk, hh, hret, ha, rxHandshaked, hu, hua', hact, ↓reduceIte,
      Bool.true_eq_false]
  have hpush : Talks C (rxEstablished C env u false) (e2eePushState (rxEstablished C env u false) true) [] :=
    .event _ rfl
  have hall := hl.trans hpush
  rw [List.append_nil] at hall
  refine ⟨σ, l, _, cbFriendMessage_consumed hmode hrx, ?_, ?_, ?_, hall.resends hL.resends, hpl, hoql, hwl⟩
  · exact hua.trans hall.acts
  · rw [← hus]
    exact hall.emits
  · rw [ht, hp, huq]

theorem cbFriendMessage_ignored (hmode : env.mode = true) (hpk : env.ident.peerPk ≠ none) {f : Bytes}
    (ha : t.e2ee.active = false)
    (hfeed : ttSessionFeed C t.e2ee env.ident (env.draws t.clock 0) f ttFrameDataMax =
      ⟨t.e2ee, .ok [], false⟩) :
    ∃ t', cbFriendMessage C env true t f = t' ∧ t'.e2ee = t.e2ee ∧ t'.oq = t.oq ∧ Acts t t' [] [] := by
  obtain ⟨hs, hoq, hacts⟩ := @e2eeRelPoll_idle C env (t.setE2ee t.e2ee).tick ha
  have hrx : e2eeRx C env t f = (e2eeRelPoll C env (t.setE2ee t.e2ee).tick, f, true) := by
    simp only [e2eeRx, if_neg hpk, hfeed, Bool.false_eq_true, ↓reduceIte]
  refine ⟨_, cbFriendMessage_consumed hmode hrx, hs, hoq, ?_⟩
  have h0 : Acts t (t.setE2ee t.e2ee).tick [] [] := .of_log rfl rfl
  exact h0.trans hacts

theorem cbFriendMessage_again (hC : C.AeadCorrect) (hT : TakesAll env) (hmode : env.mode = true)
    (hpk : env.ident.peerPk ≠ none) {f : Bytes} (hL : LiveChat C t) (hdue : t.e2ee.replyDue = false)
    (hfeed : ttSessionFeed C t.e2ee env.ident (env.draws t.clock 0) f ttFrameDataMax =
      ⟨t.e2ee, .ok [], true⟩) (hwf : t.oq.Wf) (hq : t.oqFlushing = false)
    (hpend : t.e2ee.pending = []) (hoq : t.oq.messages = []) :
    ∃ l t', cbFriendMessage C env true t f = t' ∧ Talks C t t' l ∧ linkTexts l = [] ∧
      t'.e2ee.pending = [] ∧ t'.oq.messages = [] ∧ t'.oq.Wf := by
  have h0 : Talks C t (t.setE2ee t.e2ee).tick [] := .of_same (.of_log rfl rfl) rfl
  have hbare : ∀ b ∈ (t.setE2ee t.e2ee).tick.e2ee.pending ++ (t.setE2ee t.e2ee).tick.oq.messages,
      RekeyRoom C b := by
    change ∀ b ∈ t.e2ee.pending ++ t.oq.messages, RekeyRoom C b
    rw [hpend, hoq]
    simp
  obtain ⟨l, hl, ht, hpl, hoql, hwl⟩ := rxEstablished_live hC hT hmode hpk (h0.live hL) hwf hq hbare true
  have hact := ((h0.trans hl).live hL).keys.active
  have hrx : e2eeRx C env t f = (rxEstablished C env (t.setE2ee t.e2ee).tick true, f, true) := by
    have ha : t.e2ee.active = true := hL.keys.active
    simp only [e2eeRx, if_neg hpk, hfeed, ha, rxHandshaked, rxAnswer, Chat.tick_e2ee, Chat.setE2ee_e2ee,
      hdue, ↓reduceIte, hact, Bool.false_eq_true]
  refine ⟨l, _, cbFriendMessage_consumed hmode hrx, h0.trans hl, ?_, hpl, hoql, hwl⟩
  rw [ht]
  change t.e2ee.pending ++ t.oq.messages = []
  rw [hpend, hoq]
  rfl

theorem cbFriendMessage_ack (hC : C.AeadCorrect) (hT : TakesAll env) (hmode : env.mode = true)
    (hpk : env.ident.peerPk ≠ none) {f : Bytes} (hL : LiveChat C t) (hf : IsAck C t.e2ee.root f) :
    ∃ l t', cbFriendMessage C env true t f = t' ∧ Talks C t t' l ∧ linkSents l = [] ∧
      t'.e2ee.pending = t.e2ee.pending ∧ t'.oq = t.oq := by
  obtain ⟨sent, hfeed⟩ := ttSessionFeed_ack hC hL.keys.active hL.keys.reliable hf env.ident
    (env.draws t.clock 0) ttFrameDataMax
  set s : TTSession := { t.e2ee with rel := { t.e2ee.rel with sent := sent } }
  have h0 : Talks C t (t.setE2ee s).tick [] :=
    ⟨.of_log rfl rfl, .of_link ⟨⟨rfl, rfl, rfl, rfl, rfl, rfl⟩, rfl, rfl, rfl⟩,
      fun h => ⟨h.request, h.reply⟩⟩
  obtain ⟨l, hl, hs, hoq, hp⟩ := e2eeRelPoll_calm (C := C) hT (h0.live hL).resends
  have hrx : e2eeRx C env t f = (e2eeRelPoll C env (t.setE2ee s).tick, f, true) := by
    simp only [e2eeRx, if_neg hpk, hfeed, Bool.false_eq_true, ↓reduceIte, s]
  exact ⟨l, _, cbFriendMessage_consumed hmode hrx, h0.trans hl, hs, hp, hoq⟩

theorem Sent.On.length_le {m : Sent} {r : TTRatchet} (h : m.On C r) : m.text.length ≤ m.frame.length := by
  obtain ⟨flags, nonce, he⟩ := h.encoded
  obtain ⟨-, -, -, -, ct, hct, hf⟩ := ttFrameEncode_eq_some he
  rw [hf, List.length_append, ttAeadSeal_length hct]
  omega

theorem cbFriendMessage_text (hC : C.AeadCorrect) (hT : TakesAll env) (hmode : env.mode = true)
    (hpk : env.ident.peerPk ≠ none) (hL : LiveChat C t) {m : Sent} (hm : m.On C t.e2ee.recv)
    (hv : m.Valid C t.e2ee.rekey) (hne : m.text ≠ []) :
    ∃ s l t', cbFriendMessage C env true t m.frame = t' ∧ DeliverSpec C t.e2ee s m ∧ SameShake t.e2ee s ∧
      Emits C s l t'.e2ee ∧ Acts t t' (l.map LinkFrame.frame) [m.text] ∧ linkSents l = [] ∧
      NoResends t'.e2ee ∧ t'.e2ee.pending = t.e2ee.pending ∧ t'.oq = t.oq := by
  obtain ⟨hret, hspec⟩ := ttSessionFeed_spec hC hL.keys hm hv env.ident (env.draws t.clock 0)
  obtain ⟨hh, hshake, hpend, hres⟩ := ttSessionFeed_live hC hL.keys hm env.ident (env.draws t.clock 0)
  have hlen := hm.length_le
  set r := ttSessionFeed C t.e2ee env.ident (env.draws t.clock 0) m.frame ttFrameDataMax with hr
  obtain ⟨l, hl, hs, hoq, hp⟩ := @e2eeRelPoll_calm C env (t.setE2ee r.session).tick hT
    (hres hL.resends)
  obtain ⟨b, pt, hb⟩ := List.exists_cons_of_ne_nil hne
  rw [hb] at hret hlen
  have hrx : e2eeRx C env t m.frame = (e2eeRelPoll C env (t.setE2ee r.session).tick, b :: pt, false) := by
    simp only [e2eeRx, if_neg hpk, ← hr, hh, hret, Bool.false_eq_true, ↓reduceIte, if_pos hlen]
  refine ⟨r.session, l, (e2eeRelPoll C env (t.setE2ee r.session).tick).emit (.event (.friendMessage (b :: pt))),
    ?_, hspec, hshake, hl.emits, ?_, hs, hl.resends (hres hL.resends), ?_, hoq⟩
  · rw [cbFriendMessage, if_pos rfl, if_pos hmode, hrx]
  · have h0 : Acts t (t.setE2ee r.session).tick [] [] := .of_log rfl rfl
    have := (h0.trans hl.acts).trans (Acts.emit _ (.event (.friendMessage (b :: pt))))
    rw [hb]
    simpa [packet, shown] using this
  · exact hp.trans hpend

/-! ### The timer and the start -/

theorem e2eeTick_live (hT : TakesAll env) (hn : NoResends t.e2ee) (hi : t.e2ee.initPending = false) :
    ∃ l, Talks C t (e2eeTick C env t) l ∧ linkSents l = [] ∧
      (e2eeTick C env t).oq = t.oq ∧ (e2eeTick C env t).e2ee.pending = t.e2ee.pending := by
  unfold e2eeTick
  split_ifs
  · exact ⟨[], .refl t, rfl, rfl, rfl⟩
  · have ht : ttSessionTick C t.e2ee env.ident (env.draws t.clock 0) (env.now t.clock) ttFrameMax =
        (t.e2ee, .ok []) := by
      rw [ttSessionTick, if_pos (Or.inl hi)]
    have h0 : Talks C t (t.setE2ee t.e2ee).tick [] := .of_same (.of_log rfl rfl) rfl
    obtain ⟨l, hl, hs, hoq, hp⟩ := @e2eeRelPoll_calm C env (t.setE2ee t.e2ee).tick hT hn
    simp only [ht]
    exact ⟨l, h0.trans hl, hs, hoq, hp⟩

theorem e2eeTick_idle (hT : TakesAll env) (hpk : env.ident.peerPk ≠ none) (ha : t.e2ee.active = false) :
    ∃ ρ now, (e2eeTick C env t).e2ee = (ttSessionTick C t.e2ee env.ident ρ now ttFrameMax).1 ∧
      (e2eeTick C env t).oq = t.oq ∧
      Acts t (e2eeTick C env t)
        (handedOut (okBytes (ttSessionTick C t.e2ee env.ident ρ now ttFrameMax).2)) [] := by
  refine ⟨env.draws t.clock 0, env.now t.clock, ?_⟩
  have hact : (ttSessionTick C t.e2ee env.ident (env.draws t.clock 0) (env.now t.clock) ttFrameMax).1.active =
      false := by
    unfold ttSessionTick
    split_ifs <;> exact ha
  unfold e2eeTick
  rw [if_neg hpk]
  cases hr : ttSessionTick C t.e2ee env.ident (env.draws t.clock 0) (env.now t.clock) ttFrameMax with
  | mk s r =>
    rw [hr] at hact
    have hskip : ∀ u : Chat, u.e2ee = s → u.oq = t.oq → ∀ out, Acts t u out [] →
        (e2eeRelPoll C env u).e2ee = s ∧ (e2eeRelPoll C env u).oq = t.oq ∧
          Acts t (e2eeRelPoll C env u) out [] := by
      intro u hu hoq out hacts
      obtain ⟨h1, h2, h3⟩ := @e2eeRelPoll_idle C env u (by rw [hu]; exact hact)
      have h4 := hacts.trans h3
      rw [List.append_nil] at h4
      exact ⟨h1.trans hu, h2.trans hoq, h4⟩
    cases r with
    | error e => exact hskip (t.setE2ee s).tick rfl rfl [] (.of_log rfl rfl)
    | ok g =>
      cases g with
      | nil => exact hskip (t.setE2ee s).tick rfl rfl [] (.of_log rfl rfl)
      | cons b g =>
        obtain ⟨mid, -, he⟩ := e2eeSendFrame_takesAll hT (t.setE2ee s) .normal (b :: g) none
        dsimp only
        rw [he]
        exact hskip ((t.setE2ee s).tick.emit (.frame .normal (b :: g) none)) rfl rfl [b :: g]
          ⟨⟨[.frame .normal (b :: g) none], rfl, rfl, rfl⟩, rfl⟩

theorem e2eeStart_idle (hT : TakesAll env) (hpk : env.ident.peerPk ≠ none) :
    ∃ ρ now, (e2eeStart C env t).e2ee = (ttSessionStart C t.e2ee env.ident ρ now ttFrameMax).1 ∧
      (e2eeStart C env t).oq = t.oq ∧
      Acts t (e2eeStart C env t)
        (handedOut (okBytes (ttSessionStart C t.e2ee env.ident ρ now ttFrameMax).2)) [] := by
  refine ⟨env.draws t.clock 0, env.now t.clock, ?_⟩
  unfold e2eeStart
  rw [if_neg hpk]
  cases hr : ttSessionStart C t.e2ee env.ident (env.draws t.clock 0) (env.now t.clock) ttFrameMax with
  | mk s r =>
    cases r with
    | error e => exact ⟨rfl, rfl, .of_log rfl rfl⟩
    | ok g =>
      cases g with
      | nil => exact ⟨rfl, rfl, .of_log rfl rfl⟩
      | cons b g =>
        obtain ⟨mid, -, he⟩ := e2eeSendFrame_takesAll hT (t.setE2ee s) .normal (b :: g) none
        dsimp only
        rw [he]
        exact ⟨rfl, rfl, ⟨[.frame .normal (b :: g) none], rfl, rfl, rfl⟩, rfl⟩

theorem handleCmdSendMessage_live (hC : C.AeadCorrect) (hT : TakesAll env) (hmode : env.mode = true)
    (hpk : env.ident.peerPk ≠ none) (hL : LiveChat C t) (type : ToxMessageType) {text : Bytes}
    (hne : text ≠ []) (hroom : RekeyRoom C text) :
    ∃ m, Talks C t (handleCmdSendMessage C env type text t) [.text m] ∧ m.text = text ∧
      (handleCmdSendMessage C env type text t).oq = t.oq ∧
      (handleCmdSendMessage C env type text t).e2ee.pending = t.e2ee.pending := by
  have ha : t.e2ee.active = true := hL.keys.active
  have hdue : ¬ e2eeFallbackDue env t = true := by simp [e2eeFallbackDue, ha]
  obtain ⟨m, u, hs, hm, hu, hoq, hp⟩ := sendChunk_live hC hT hL type (p := ⟨0, text⟩) hroom
  have hcmd : handleCmdSendMessage C env type text t = u.emit (.event (.messageSent (messageId env t))) := by
    rw [handleCmdSendMessage, if_pos ⟨hmode, hpk⟩, if_neg hdue, sendText,
      textChunks_short (p := ⟨0, text⟩) hne hroom.le]
    simp only [sendLoop, sendStep, hs, requeueTail]
  rw [hcmd]
  exact ⟨m, hu.trans (.event u rfl), hm, hoq, hp⟩

theorem handleCmdSendMessage_waits (C : Crypto) (hOn : OnSession env t) (ha : t.e2ee.active = false)
    (hwf : t.oq.Wf) (hq : t.oq.messages.length < ttOqMaxPerFriend) (type : ToxMessageType) {text : Bytes}
    (hne : text ≠ []) (hl : text.length ≤ ttFrameDataMax) (hz : 0 ∉ text) :
    ∃ t', handleCmdSendMessage C env type text t = t' ∧ Acts t t' [] [] ∧ t'.oq.Wf ∧
      ((t.e2ee.pending.length < ttSessionPendingMax ∧
          t'.e2ee = { t.e2ee with pending := t.e2ee.pending ++ [text] } ∧ t'.oq = t.oq) ∨
        (ttSessionPendingMax ≤ t.e2ee.pending.length ∧ t'.e2ee = t.e2ee ∧
          t'.oq.messages = t.oq.messages ++ [text])) := by
  obtain ⟨hmode, hpk, hdue⟩ := hOn
  have hcmd : handleCmdSendMessage C env type text t = sendText C env type text t := by
    rw [handleCmdSendMessage, if_pos ⟨hmode, hpk⟩, if_neg (by simp [hdue])]
  have hpos : text.length > 0 := List.length_pos_iff.mpr hne
  refine ⟨_, hcmd, ?_⟩
  rw [sendText, textChunks_short (p := ⟨0, text⟩) hne hl]
  by_cases hfull : t.e2ee.pending.length ≥ ttSessionPendingMax
  · have hs : ttSessionSend C t.e2ee text ttFrameMax (env.draws t.clock 0) = (t.e2ee, .error .busy) := by
      rw [ttSessionSend, if_neg (not_lt.mpr hl), if_pos ha, if_pos hfull]
    have hput := hwf.messages_put hq hne (cString_eq_self_iff.mpr hz) (hl.trans (by decide))
    have hloop : sendLoop C env type [⟨0, text⟩] t = ((t.setE2ee t.e2ee).tick, [⟨0, text⟩]) := by
      simp only [sendLoop, sendStep, sendChunk, hs]
    rw [hloop]
    dsimp only [requeueTail]
    have hjoin : joinChunks ⟨0, text⟩ [] = ⟨0, text⟩ := by simp [joinChunks]
    rw [hjoin]
    exact ⟨⟨⟨[.queued ⟨0, text⟩], rfl, rfl, rfl⟩, rfl⟩, TTOqFriend.put_wf hwf text,
      Or.inr ⟨hfull, rfl, hput⟩⟩
  · have hs : ttSessionSend C t.e2ee text ttFrameMax (env.draws t.clock 0) =
        ({ t.e2ee with pending := t.e2ee.pending ++ [text] }, .ok []) := by
      rw [ttSessionSend, if_neg (not_lt.mpr hl), if_pos ha, if_neg hfull, if_pos hpos]
    have hloop : sendLoop C env type [⟨0, text⟩] t =
        ((t.setE2ee { t.e2ee with pending := t.e2ee.pending ++ [text] }).tick.emit (.stashed ⟨0, text⟩), []) := by
      simp only [sendLoop, sendStep, sendChunk, hs]
    rw [hloop]
    exact ⟨⟨⟨[.stashed ⟨0, text⟩], rfl, rfl, rfl⟩, rfl⟩, hwf, Or.inl ⟨not_le.mp hfull, rfl, rfl⟩⟩

theorem requeueAll_acts (ps : List Piece) (t : Chat) :
    (ps.foldl Chat.requeue t).e2ee = t.e2ee ∧ Acts t (ps.foldl Chat.requeue t) [] [] := by
  induction ps generalizing t with
  | nil => exact ⟨rfl, .refl t⟩
  | cons p ps ih =>
    obtain ⟨h1, h2⟩ := ih (t.requeue p)
    have h3 : Acts t (t.requeue p) [] [] := ⟨⟨[.queued p], rfl, rfl, rfl⟩, rfl⟩
    exact ⟨h1, h3.trans h2⟩

theorem offlineFlushFriend_waits (C : Crypto) (hOn : OnSession env t) (ha : t.e2ee.active = false)
    (hfull : t.oq.messages ≠ [] → ttSessionPendingMax ≤ t.e2ee.pending.length) (hwf : t.oq.Wf)
    (hl : ∀ b ∈ t.oq.messages, b.length ≤ ttFrameDataMax) :
    ∃ t', offlineFlushFriend C env t = t' ∧ t'.e2ee = t.e2ee ∧ t'.oq.messages = t.oq.messages ∧
      t'.oq.Wf ∧ Acts t t' [] [] := by
  obtain ⟨hmode, hpk, hdue⟩ := hOn
  obtain ⟨hw, hempty⟩ := hwf.takeAll
  refine ⟨_, rfl, ?_⟩
  unfold offlineFlushFriend
  dsimp only
  rw [TTOqFriend.takeAll_texts]
  have h0 : Acts t t.emptied [] [] := .of_log rfl rfl
  cases hm : t.oq.messages with
  | nil =>
    rw [if_pos rfl]
    exact ⟨rfl, hempty, hw, h0⟩
  | cons b bs =>
    have hstash := hfull (by rw [hm]; exact List.cons_ne_nil b bs)
    rw [hm] at hl
    have hb := hl b (List.mem_cons_self ..)
    have hne : b ≠ [] := (hwf.texts b (by rw [hm]; exact List.mem_cons_self ..)).1
    have hs : ttSessionSend C t.e2ee b ttFrameMax (env.draws t.clock 0) = (t.e2ee, .error .busy) := by
      rw [ttSessionSend, if_neg (not_lt.mpr hb), if_pos ha, if_pos hstash]
    have hflush : flushTexts C env (textPieces 0 (b :: bs)) t.emptied =
        (textPieces 0 (b :: bs)).foldl Chat.requeue (t.emptied.setE2ee t.e2ee).tick := by
      have hs' : ttSessionSend C t.emptied.e2ee b ttFrameMax (env.draws t.emptied.clock 0) =
        (t.e2ee, .error .busy) := hs
      rw [textPieces, flushTexts, textChunks_short (p := ⟨0, b⟩) hne hb]
      simp only [flushText, sendChunk, hs']
    have hdue' : ¬ e2eeFallbackDue env t.emptied = true := by
      rw [show e2eeFallbackDue env t.emptied = e2eeFallbackDue env t from rfl, hdue]
      decide
    rw [if_neg (List.cons_ne_nil b bs), if_pos ⟨hmode, hpk⟩, if_neg hdue', hflush]
    have htext : ∀ p ∈ textPieces 0 (b :: bs), p.Text :=
      textPieces_text 0 (by rw [← hm]; exact hwf.texts)
    have hlen : (t.emptied.setE2ee t.e2ee).tick.oq.messages.length + (textPieces 0 (b :: bs)).length ≤
        ttOqMaxPerFriend := by
      change t.oq.takeAll.1.messages.length + _ ≤ _
      rw [hempty, textPieces_length, ← hm, hwf.messages_length, List.length_nil, Nat.zero_add]
      exact hwf.count
    have hd := did_requeueAll (textPieces 0 (b :: bs)) (t := (t.emptied.setE2ee t.e2ee).tick) hw hlen htext
    obtain ⟨he, hacts⟩ := requeueAll_acts (textPieces 0 (b :: bs)) (t.emptied.setE2ee t.e2ee).tick
    refine ⟨he, ?_, hd.wf, ?_⟩
    · rw [Chat.emit_oq, hd.queue, textPieces_bytes]
      change t.oq.takeAll.1.messages ++ _ = _
      rw [hempty, List.nil_append]
    · have h1 : Acts t (t.emptied.setE2ee t.e2ee).tick [] [] := .of_log rfl rfl
      exact (h1.trans hacts).trans (.emit _ (.event (.offlineFlushed _)))

end TkTox
