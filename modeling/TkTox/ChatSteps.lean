import TkTox.ChatPair

/-!
What the two engines do on their own keeps the invariant of the pair: timers, handshake starts,
flushes and texts taken up.
-/

namespace TkTox

open ChatEffect

variable {C : Crypto} {env : Bool → ChatEnv} {w : ChatPair} {hs : Bool → List Bytes}
  {fl : Bool → List LinkFrame} {t t' : Chat} {out : List Bytes} {j : Bool}

theorem ChatOk.of_idle (h : ChatOk C t) (ha : t'.e2ee.active = false) (hl : t'.e2ee.lossy = t.e2ee.lossy)
    (hr : t'.e2ee.rel = t.e2ee.rel) (hu : t'.e2ee.rekey.peerHave = false)
    (hp : t'.e2ee.pending = t.e2ee.pending) (hq : t'.oq.Wf) (hm : t'.oq.messages = t.oq.messages)
    (hf : t'.oqFlushing = t.oqFlushing) : ChatOk C t' where
  reliable := hl.trans h.reliable
  resends := h.resends.of_rel (by rw [hr]) (by rw [hr])
  unpublished _ := hu
  queue := hq
  flushing := hf.trans h.flushing
  texts := by
    rw [Chat.waiting, hp, hm]
    exact h.texts
  stash := by
    rw [hp, hm]
    exact h.stash
  live ha' := by
    rw [ha] at ha'
    cases ha'

theorem PairPhase.silent {env : Bool → TTE2EEEnv} {sess : Bool → TTSession} {spent : Bool → List KemPk}
    {started : Bool} (h : PairPhase C env sess hs fl spent started) (ha : (sess j).active = false) :
    fl j = [] := by
  cases h with
  | opening stash inactive phase empty => exact empty j
  | answered i old reply t pend answer same keys inits wire inits' empty acks link =>
    rcases eq_or_eq_not i j with rfl | rfl
    · exact empty
    · rw [keys.active] at ha
      cases ha
  | live i root inits wire responder notPending due roots acks link =>
    obtain ⟨used, hi, -⟩ := link
    have hlive : (sess j).active = true := (hi.keys j).active
    rw [ha] at hlive
    cases hlive

theorem PairPhase.mono {env : Bool → TTE2EEEnv} {sess : Bool → TTSession}
    {spent spent' : Bool → List KemPk} {started : Bool} (h : PairPhase C env sess hs fl spent started)
    (hsp : ∀ k, spent k ⊆ spent' k) : PairPhase C env sess hs fl spent' started := by
  cases h with
  | opening stash inactive phase empty => exact .opening stash inactive phase empty
  | answered i old reply t pend answer same keys inits wire inits' empty acks link =>
    exact .answered i old reply t pend answer same keys inits wire inits' empty acks
      fun v hv => (link v hv).mono hsp
  | live i root inits wire responder notPending due roots acks link =>
    exact .live i root inits wire responder notPending due roots acks (link.mono hsp)

theorem ChatPair.submit_nil (w : ChatPair) (j : Bool) :
    ({ w with submitted := Function.update w.submitted j (w.submitted j ++ []) } : ChatPair) = w := by
  rw [List.append_nil, Function.update_eq_self]

namespace PairInv

theorem wait (h : PairInv C env w hs fl) (ha : (w.chat j).e2ee.active = false) (submitted : List Bytes)
    {started : Bool} (hacts : Acts (w.chat j) t out [])
    (hphase : PairPhase C (idents env) (Function.update w.sess j t.e2ee)
      (Function.update hs j (hs j ++ out)) fl w.spent started)
    (hok : ChatOk C t) (hwait : t.waiting = (w.chat j).waiting ++ submitted) :
    PairInv C env
      ({ w with
          submitted := Function.update w.submitted j (w.submitted j ++ submitted)
          started := started }.call j t)
      (Function.update hs j (hs j ++ out)) fl := by
  have hnj : (!j) ≠ j := Bool.not_ne_self j
  have hfl : fl j = [] := h.phase.silent ha
  have hflow := h.flow j
  have hflow' := h.flow !j
  rw [Bool.not_not] at hflow'
  apply PairInv.of_call (w := { w with
    submitted := Function.update w.submitted j (w.submitted j ++ submitted), started := started }) hacts
  case hwire =>
    have hw := h.wire j
    rw [hfl, List.map_nil, List.append_nil] at hw
    rw [Function.update_self, hfl, List.map_nil, List.append_nil]
    exact congrArg (· ++ out) hw
  case hwire' =>
    rw [Function.update_of_ne hnj]
    exact h.wire !j
  case hphase =>
    apply hphase.mono
    intro k
    exact ChatPair.spent_subset { w with submitted := _, started := _ } j t k
  case hok => exact hok
  case hok' => exact h.chats !j
  case hflow =>
    dsimp only
    rw [Function.update_self, hflow, hwait, List.append_assoc]
  case hflow' =>
    dsimp only
    rw [Function.update_of_ne hnj, List.append_nil]
    exact hflow'
  case htexts => exact h.texts

theorem quiet (hD : C.DhCommutes) (hK : C.KemCorrect) (h : PairInv C env w hs fl)
    (ha : (w.chat j).e2ee.active = true) {l : List LinkFrame} (ht : Talks C (w.chat j) t l)
    (hq : t.oq.Wf) (hp : t.e2ee.pending = []) (hm : t.oq.messages = []) (hl : linkTexts l = []) :
    PairInv C env (w.call j t) hs (Function.update fl j (fl j ++ l)) := by
  have := h.talk hD hK ha [] ht hq hp hm hl (by simp)
  rwa [w.submit_nil] at this

theorem rest (h : PairInv C env w hs fl) (hD : C.DhCommutes) (hK : C.KemCorrect)
    (hs' : t.e2ee = (w.chat j).e2ee) (hq : t.oq.Wf) (hm : t.oq.messages = (w.chat j).oq.messages)
    (hacts : Acts (w.chat j) t [] []) : PairInv C env (w.call j t) hs fl := by
  have hok := h.chats j
  cases ha : (w.chat j).e2ee.active with
  | true =>
    have htalk : Talks C (w.chat j) t [] := .of_same hacts hs'
    obtain ⟨hp, hm'⟩ := hok.live ha
    have := h.quiet hD hK ha htalk hq (by rw [hs', hp]) (by rw [hm, hm']) rfl
    rwa [List.append_nil, Function.update_eq_self] at this
  | false =>
    have hphase : PairPhase C (idents env) (Function.update w.sess j t.e2ee)
        (Function.update hs j (hs j ++ [])) fl w.spent w.started := by
      rw [hs', List.append_nil, Function.update_eq_self]
      have hsess : Function.update w.sess j (w.chat j).e2ee = w.sess := Function.update_eq_self j w.sess
      rw [hsess]
      exact h.phase
    have hok' : ChatOk C t := hok.of_idle (by rw [hs', ha]) (by rw [hs']) (by rw [hs'])
      (by rw [hs']; exact hok.unpublished ha) (by rw [hs']) hq hm hacts.flushing
    have hwait : t.waiting = (w.chat j).waiting ++ [] := by
      rw [List.append_nil, Chat.waiting, Chat.waiting, hs', hm]
    have := h.wait ha [] hacts hphase hok' hwait
    rw [List.append_nil (hs j), Function.update_eq_self] at this
    have hworld : ({ w with
        submitted := Function.update w.submitted j (w.submitted j ++ []), started := w.started } : ChatPair) = w :=
      w.submit_nil j
    rwa [hworld] at this

theorem begun (h : PairInv C env w hs fl)
    (hb : (w.sess j).active = true ∨ (w.sess j).initPending = true ∨ (w.sess j).replyDue = true)
    (started : Bool) : PairInv C env { w with started := started } hs fl where
  wire := h.wire
  phase := h.phase.begun hb started
  chats := h.chats
  flow := h.flow
  texts := h.texts

end PairInv

structure Joined (C : Crypto) (env : Bool → ChatEnv) : Prop where
  friends : ∀ i, Friends C (idents env i) (idents env !i)
  distinct : (idents env false).selfPk ≠ (idents env true).selfPk
  mode : ∀ i, (env i).mode = true
  takes : ∀ i, TakesAll (env i)

theorem Joined.friend (hJ : Joined C env) (i : Bool) : (env i).ident.peerPk ≠ none := by
  have h := (hJ.friends i).peerPk_left
  rw [idents] at h
  rw [h]
  exact Option.some_ne_none _

section

variable {s : TTSession} {ident : TTE2EEEnv} {ρ : Draws} {now : ℤ} {cap : ℕ}

structure Kept (s s' : TTSession) : Prop where
  active : s'.active = false
  lossy : s'.lossy = s.lossy
  rel : s'.rel = s.rel
  peerHave : s'.rekey.peerHave = false
  pending : s'.pending = s.pending

theorem ttSessionTick_kept (ha : s.active = false) (hp : s.rekey.peerHave = false) :
    Kept s (ttSessionTick C s ident ρ now cap).1 := by
  unfold ttSessionTick
  split_ifs <;> exact ⟨ha, rfl, rfl, hp, rfl⟩

theorem ttSessionStart_kept (ha : s.active = false) (hp : s.rekey.peerHave = false) :
    Kept s (ttSessionStart C s ident ρ now cap).1 := by
  unfold ttSessionStart
  cases ident.peerPk with
  | none => exact ⟨ha, rfl, rfl, hp, rfl⟩
  | some peerPk =>
    dsimp only
    split
    · exact ⟨rfl, rfl, rfl, rfl, rfl⟩
    · split <;> exact ⟨rfl, rfl, rfl, rfl, rfl⟩

theorem ChatOk.of_kept (h : ChatOk C t) (hk : Kept t.e2ee t'.e2ee) (hq : t'.oq.Wf)
    (hm : t'.oq.messages = t.oq.messages) (hf : t'.oqFlushing = t.oqFlushing) :
    ChatOk C t' ∧ t'.waiting = t.waiting := by
  constructor
  · exact h.of_idle hk.active hk.lossy hk.rel hk.peerHave hk.pending hq hm hf
  · rw [Chat.waiting, Chat.waiting, hk.pending, hm]

end

namespace PairInv

theorem shake (h : PairInv C env w hs fl) (ha : (w.chat j).e2ee.active = false) {started : Bool}
    (hk : Kept (w.chat j).e2ee t.e2ee) (hq : t.oq.Wf) (hm : t.oq.messages = (w.chat j).oq.messages)
    (hacts : Acts (w.chat j) t out [])
    (hphase : PairPhase C (idents env) (Function.update w.sess j t.e2ee)
      (Function.update hs j (hs j ++ out)) fl w.spent started) :
    PairInv C env ({ w with started := started }.call j t) (Function.update hs j (hs j ++ out)) fl := by
  obtain ⟨hok, hw⟩ := (h.chats j).of_kept hk hq hm hacts.flushing
  have := h.wait ha [] hacts hphase hok (by rw [hw, List.append_nil])
  rwa [List.append_nil, Function.update_eq_self] at this

theorem tick (hD : C.DhCommutes) (hK : C.KemCorrect) (hJ : Joined C env) (h : PairInv C env w hs fl)
    (j : Bool) : ∃ hs' fl', PairInv C env (pairStep C env w (.tick j)) hs' fl' := by
  have hok := h.chats j
  have hstep : pairStep C env w (.tick j) = w.call j (e2eeTick C (env j) (w.chat j)) := by
    rw [pairStep, chatStep, if_pos (hJ.mode j)]
  rw [hstep]
  cases ha : (w.chat j).e2ee.active with
  | true =>
    obtain ⟨hp, hm⟩ := hok.live ha
    obtain ⟨l, hl, hs', hoq, hpend⟩ := e2eeTick_live (C := C) (hJ.takes j) hok.resends
      (h.phase.settled ha).1
    refine ⟨hs, _, h.quiet hD hK ha hl ?_ ?_ ?_ ?_⟩
    · rw [hoq]
      exact hok.queue
    · rw [hpend, hp]
    · rw [hoq, hm]
    · rw [linkTexts, hs']
      rfl
  | false =>
    obtain ⟨ρ, now, hs', hoq, hacts⟩ := e2eeTick_idle (C := C) (hJ.takes j) (hJ.friend j) ha
    refine ⟨_, fl, h.shake ha ?_ (hoq ▸ hok.queue) (by rw [hoq]) hacts ?_⟩
    · rw [hs']
      exact ttSessionTick_kept ha (hok.unpublished ha)
    · rw [hs']
      exact h.phase.tick ha ρ now

end PairInv

theorem ChatOk.flush (hJ : Joined C env) (hok : ChatOk C (w.chat j)) {X : Prop} [Decidable X]
    (hs : t.e2ee = (w.chat j).e2ee) (hq : t.oq = (w.chat j).oq) (hat : t.handshakeAt = (w.chat j).handshakeAt)
    (hclock : t.clock = (w.chat j).clock) (hdue : (w.chat j).oq.count > 0 → InTime env w j) :
    ∃ v, (if t.oq.count > 0 ∧ X then offlineFlushFriend C (env j) t else t) = v ∧ v.e2ee = t.e2ee ∧
      v.oq.messages = t.oq.messages ∧ v.oq.Wf ∧ Acts t v [] [] := by
  have hwf : t.oq.Wf := hq ▸ hok.queue
  by_cases hgo : t.oq.count > 0 ∧ X
  · rw [if_pos hgo]
    have hne : t.oq.messages ≠ [] := by
      rw [← List.length_pos_iff, hwf.messages_length]
      exact hgo.1
    have ha : t.e2ee.active = false := by
      by_contra hact
      rw [Bool.not_eq_false, hs] at hact
      rw [hq] at hne
      exact hne (hok.live hact).2
    have hOn : OnSession (env j) t := by
      refine ⟨hJ.mode j, hJ.friend j, ?_⟩
      have := hdue (hq ▸ hgo.1)
      rw [InTime, e2eeFallbackDue, ← hs, ← hat, ← hclock] at this
      exact this
    apply offlineFlushFriend_waits C hOn ha _ hwf
    · intro b hb
      rw [hq] at hb
      exact (hok.texts b (List.mem_append_right _ hb)).2.le
    · intro _
      rw [hs]
      rw [hq] at hne
      exact hok.stash hne
  · rw [if_neg hgo]
    exact ⟨t, rfl, rfl, rfl, hwf, .refl t⟩

namespace PairInv

theorem flushAll (hD : C.DhCommutes) (hK : C.KemCorrect) (hJ : Joined C env) (h : PairInv C env w hs fl)
    (j connected : Bool) (hdue : (w.chat j).oq.count > 0 → InTime env w j) :
    PairInv C env (pairStep C env w (.flushAll j connected)) hs fl := by
  obtain ⟨v, hv, hs', hm, hq, hacts⟩ := (h.chats j).flush (X := connected = true) hJ
    (t := { w.chat j with oqFlushing := true }) rfl rfl rfl rfl hdue
  have hstep : pairStep C env w (.flushAll j connected) = w.call j { v with oqFlushing := false } := by
    rw [← hv]
    rfl
  rw [hstep]
  exact h.rest hD hK hs' hq hm ⟨hacts.log, (h.chats j).flushing.symm⟩

theorem enforce (hD : C.DhCommutes) (hK : C.KemCorrect) (h : PairInv C env w hs fl) (j on : Bool) :
    PairInv C env (pairStep C env w (.enforce j on)) hs fl :=
  h.rest hD hK rfl (h.chats j).queue rfl (.of_log rfl rfl)

theorem connection (hC : C.AeadCorrect) (hD : C.DhCommutes) (hK : C.KemCorrect) (hJ : Joined C env)
    (h : PairInv C env w hs fl) (j online : Bool) (hdue : (w.chat j).oq.count > 0 → InTime env w j) :
    ∃ hs', PairInv C env (pairStep C env w (.connection j online)) hs' fl := by
  have hok := h.chats j
  cases online with
  | false =>
    have hstep : pairStep C env w (.connection j false) = w.call j (w.chat j) := by
      rw [pairStep, Bool.or_false]
      rfl
    rw [hstep]
    exact ⟨hs, h.rest hD hK rfl hok.queue rfl (.refl _)⟩
  | true =>
    obtain ⟨v, hv, hs', hm, hq, hacts⟩ := hok.flush hJ
      (X := ({ w.chat j with fallback := false, warned := false } : Chat).oqFlushing = false)
      (t := { w.chat j with fallback := false, warned := false }) rfl rfl rfl rfl hdue
    have hclear : Acts (w.chat j) { w.chat j with fallback := false, warned := false } [] [] := .of_log rfl rfl
    have hall := hclear.trans hacts
    have hstep : chatStep C (env j) (w.chat j) (.connection true) =
        if v.e2ee.active = false ∧ v.e2ee.initPending = false ∧ v.e2ee.replyDue = false then
          e2eeStart C (env j) v else v := by
      rw [chatStep, cbFriendConnection, if_pos rfl, if_pos (hJ.mode j), ← hv]
      simp only [hJ.mode j, true_and]
    rw [pairStep, hstep, Bool.or_true]
    by_cases hidle : v.e2ee.active = false ∧ v.e2ee.initPending = false ∧ v.e2ee.replyDue = false
    · rw [if_pos hidle]
      rw [hs'] at hidle
      obtain ⟨ρ, now, hst, hoq, hstart⟩ := e2eeStart_idle (C := C) (t := v) (hJ.takes j) (hJ.friend j)
      have hout := hall.trans hstart
      rw [List.nil_append] at hout
      rw [hs'] at hst hout
      refine ⟨_, h.shake hidle.1 ?_ (hoq ▸ hq) (by rw [hoq, hm]) hout ?_⟩
      · rw [hst]
        exact ttSessionStart_kept hidle.1 (hok.unpublished hidle.1)
      · rw [hst]
        exact h.phase.start hC hD hJ.friends hJ.distinct hidle.1 hidle.2.1 hidle.2.2 ρ now
    · rw [if_neg hidle]
      rw [hs'] at hidle
      have hb : (w.sess j).active = true ∨ (w.sess j).initPending = true ∨ (w.sess j).replyDue = true := by
        have hnot : ¬ ((w.sess j).active = false ∧ (w.sess j).initPending = false ∧
          (w.sess j).replyDue = false) := hidle
        revert hnot
        cases (w.sess j).active <;> cases (w.sess j).initPending <;> cases (w.sess j).replyDue <;> simp
      exact ⟨hs, (h.begun hb true).rest hD hK hs' hq hm hall⟩

theorem send (hC : C.AeadCorrect) (hD : C.DhCommutes) (hK : C.KemCorrect) (hJ : Joined C env)
    (h : PairInv C env w hs fl) (j : Bool) (type : ToxMessageType) (text : Bytes)
    (hok' : PairOk C env w (.send j type text)) :
    ∃ fl', PairInv C env (pairStep C env w (.send j type text)) hs fl' := by
  obtain ⟨hdue, hne, hz, hroom, hcount⟩ := hok'
  have hok := h.chats j
  rw [pairStep, chatStep]
  cases ha : (w.chat j).e2ee.active with
  | true =>
    obtain ⟨hp, hm⟩ := hok.live ha
    obtain ⟨m, hl, hm', hoq, hpend⟩ := handleCmdSendMessage_live hC (hJ.takes j) (hJ.mode j) (hJ.friend j)
      (hok.liveChat (h.phase.settled ha).2.2) type hne hroom
    refine ⟨_, h.talk hD hK ha [text] hl (by rw [hoq]; exact hok.queue) (by rw [hpend, hp])
      (by rw [hoq, hm]) ?_ (by simpa using hne)⟩
    rw [linkTexts_text, hm', linkTexts_nil]
  | false =>
    have hlen : (w.chat j).oq.messages.length < ttOqMaxPerFriend := by
      rwa [hok.queue.messages_length]
    obtain ⟨t', ht, hacts, hq, hcase⟩ := handleCmdSendMessage_waits C ⟨hJ.mode j, hJ.friend j, hdue⟩ ha
      hok.queue hlen type hne hroom.le hz
    rw [ht]
    have hnew : ∀ b ∈ (w.chat j).waiting ++ [text], b ≠ [] ∧ RekeyRoom C b := by
      intro b hb
      obtain hb | hb := List.mem_append.mp hb
      · exact hok.texts b hb
      · rw [List.mem_singleton.mp hb]
        exact ⟨hne, hroom⟩
    have hsess : ∃ q, t'.e2ee = { (w.chat j).e2ee with pending := q } := by
      obtain ⟨-, hs', -⟩ | ⟨-, hs', -⟩ := hcase
      · exact ⟨_, hs'⟩
      · exact ⟨(w.chat j).e2ee.pending, hs'⟩
    have hwait : t'.waiting = (w.chat j).waiting ++ [text] ∧
        (t'.oq.messages ≠ [] → ttSessionPendingMax ≤ t'.e2ee.pending.length) := by
      obtain ⟨hlt, hs', hoq⟩ | ⟨hfull, hs', hoq⟩ := hcase
      · have hnil : (w.chat j).oq.messages = [] := by
          by_contra hn
          have := hok.stash hn
          omega
        rw [Chat.waiting, Chat.waiting, hs', hoq, hnil, List.append_nil, List.append_nil]
        exact ⟨rfl, fun hn => absurd rfl hn⟩
      · rw [Chat.waiting, Chat.waiting, hs', hoq, List.append_assoc]
        exact ⟨rfl, fun _ => hfull⟩
    obtain ⟨q, hq'⟩ := hsess
    have hact : t'.e2ee.active = false := by rw [hq']; exact ha
    have hchat : ChatOk C t' := by
      refine ⟨?_, ?_, fun _ => ?_, hq, hacts.flushing.trans hok.flushing, ?_, hwait.2, fun hl => ?_⟩
      · rw [hq']
        exact hok.reliable
      · rw [hq']
        exact hok.resends.of_rel rfl rfl
      · rw [hq']
        exact hok.unpublished ha
      · rw [hwait.1]
        exact hnew
      · rw [hact] at hl
        cases hl
    have hphase : PairPhase C (idents env) (Function.update w.sess j t'.e2ee)
        (Function.update hs j (hs j ++ [])) fl w.spent w.started := by
      rw [List.append_nil, Function.update_eq_self, hq']
      exact h.phase.stash ha q
    have hdone := h.wait ha [text] hacts hphase hchat hwait.1
    rw [List.append_nil (hs j), Function.update_eq_self] at hdone
    exact ⟨fl, hdone⟩

end PairInv

end TkTox
