import TkTox.WireTexts

/-!
The oldest packet of one side reaches the other. With the steps of `ChatSteps` this gives the
delivery of every text of a run, once and in order.
-/

namespace TkTox

open ChatEffect

variable {C : Crypto} {env : Bool → ChatEnv} {w : ChatPair} {hs : Bool → List Bytes}
  {fl : Bool → List LinkFrame} {t t' : Chat} {j : Bool} {f : Bytes} {hr : List Bytes}

theorem pairStep_deliver (C : Crypto) (env : Bool → ChatEnv) {rest : List Bytes} (hw : w.wire (!j) = f :: rest) :
    pairStep C env w (.deliver !j) =
      { w with wire := Function.update w.wire (!j) rest }.call j
        (cbFriendMessage C (env j) true (w.chat j) f) := by
  simp only [pairStep, hw, Bool.not_not]
  rfl

namespace PairInv

theorem pop (h : PairInv C env w hs fl) (hw : hs (!j) = f :: hr)
    (hphase : PairPhase C (idents env) w.sess (Function.update hs (!j) hr) fl w.spent w.started) :
    w.wire (!j) = f :: (hr ++ (fl !j).map LinkFrame.frame) ∧
      PairInv C env
        { w with wire := Function.update w.wire (!j) (hr ++ (fl !j).map LinkFrame.frame) }
        (Function.update hs (!j) hr) fl := by
  have hwire := h.wire !j
  rw [hw, List.cons_append] at hwire
  refine ⟨hwire, ?_, hphase, h.chats, h.flow, h.texts⟩
  have hne : j ≠ !j := (Bool.not_ne_self j).symm
  refine RekeyInv.forall_update j ?_ ?_
  · dsimp only
    rw [Function.update_of_ne hne, Function.update_of_ne hne]
    exact h.wire j
  · dsimp only
    rw [Function.update_self, Function.update_self]

variable (hC : C.AeadCorrect) (hD : C.DhCommutes) (hK : C.KemCorrect) (hJ : Joined C env)
  (h : PairInv C env w hs fl) (hw : hs (!j) = f :: hr)

include hD hK hJ h hw

theorem ignored (ha : (w.chat j).e2ee.active = false)
    (hfeed : ttSessionFeed C (w.chat j).e2ee (env j).ident ((env j).draws (w.chat j).clock 0) f ttFrameDataMax =
      ⟨(w.chat j).e2ee, .ok [], false⟩)
    (hphase : PairPhase C (idents env) w.sess (Function.update hs (!j) hr) fl w.spent w.started) :
    ∃ hs' fl', PairInv C env (pairStep C env w (.deliver !j)) hs' fl' := by
  obtain ⟨hwire, hpop⟩ := h.pop hw hphase
  obtain ⟨t', ht, hs', hoq, hacts⟩ := cbFriendMessage_ignored (hJ.mode j) (hJ.friend j) ha hfeed
  rw [pairStep_deliver C env hwire, ht]
  exact ⟨_, fl, hpop.rest hD hK hs' (hoq ▸ (h.chats j).queue) (by rw [hoq]) hacts⟩

include hC

theorem again (ha : (w.chat j).e2ee.active = true)
    (hfeed : ttSessionFeed C (w.chat j).e2ee (env j).ident ((env j).draws (w.chat j).clock 0) f ttFrameDataMax =
      ⟨(w.chat j).e2ee, .ok [], true⟩)
    (hphase : PairPhase C (idents env) w.sess (Function.update hs (!j) hr) fl w.spent w.started) :
    ∃ hs' fl', PairInv C env (pairStep C env w (.deliver !j)) hs' fl' := by
  have hok := h.chats j
  obtain ⟨hp, hm⟩ := hok.live ha
  obtain ⟨-, hdue, hkeys⟩ := h.phase.settled ha
  obtain ⟨hwire, hpop⟩ := h.pop hw hphase
  obtain ⟨l, t', ht, htalk, hl, hp', hm', hq⟩ := cbFriendMessage_again hC (hJ.takes j) (hJ.mode j)
    (hJ.friend j) (hok.liveChat hkeys) hdue hfeed hok.queue hok.flushing hp hm
  rw [pairStep_deliver C env hwire, ht]
  exact ⟨_, _, hpop.quiet hD hK ha htalk hq hp' hm' hl⟩

omit hD hK in
theorem establish (ha : (w.chat j).e2ee.active = false)
    (hfeed : (ttSessionFeed C (w.chat j).e2ee (env j).ident ((env j).draws (w.chat j).clock 0) f
        ttFrameDataMax).handshaked = true ∧
      (ttSessionFeed C (w.chat j).e2ee (env j).ident ((env j).draws (w.chat j).clock 0) f
        ttFrameDataMax).ret = .ok [])
    (hnew : ∀ σ, (∃ root b, NewSession C (receive C (w.chat j).e2ee (env j).ident
        ((env j).draws (w.chat j).clock 0) σ f).1 root b) ∧
      (receive C (w.chat j).e2ee (env j).ident ((env j).draws (w.chat j).clock 0) σ f).1.pending =
        (w.chat j).e2ee.pending ∧
      (receive C (w.chat j).e2ee (env j).ident ((env j).draws (w.chat j).clock 0) σ f).1.rel =
        (w.chat j).e2ee.rel)
    (hphase : ∀ σ s' l spent',
      Emits C (receive C (w.chat j).e2ee (env j).ident ((env j).draws (w.chat j).clock 0) σ f).1 l s' →
      (∀ m ∈ linkSents l, m.target = none) → (∀ k, w.spent k ⊆ spent' k) →
      PairPhase C (idents env) (Function.update w.sess j s')
        (Function.update (Function.update hs (!j) hr) j
          (hs j ++ handedOut (receive C (w.chat j).e2ee (env j).ident
            ((env j).draws (w.chat j).clock 0) σ f).2))
        (Function.update fl j l) spent' w.started) :
    ∃ hs' fl', PairInv C env (pairStep C env w (.deliver !j)) hs' fl' := by
  have hne : (!j) ≠ j := Bool.not_ne_self j
  have hok := h.chats j
  have hfl := h.phase.silent (j := j) ha
  have hwire := h.wire !j
  rw [hw, List.cons_append] at hwire
  obtain ⟨σ, l, t', ht, hacts, hemits, hl, hres, hp, hm, hq⟩ := cbFriendMessage_establishes hC (hJ.takes j)
    (hJ.mode j) (hJ.friend j) ha hfeed.1 hfeed.2 hnew hok.resends hok.queue hok.flushing
    fun b hb => (hok.texts b hb).2
  obtain ⟨⟨root, b, hn⟩, -, -⟩ := hnew σ
  rw [pairStep_deliver C env hwire, ht]
  refine ⟨_, _, of_call (w := { w with wire := _ }) hacts ?_ ?_
    (hphase σ t'.e2ee l _ hemits (hemits.no_target hn.unpublished).2 ?_) ?_ ?_ ?_ ?_ ?_⟩
  case refine_1 =>
    have hj := h.wire j
    rw [hfl, List.map_nil, List.append_nil] at hj
    dsimp only
    rw [Function.update_of_ne hne.symm, Function.update_self, Function.update_self, hj, List.append_assoc]
  case refine_2 =>
    dsimp only
    rw [Function.update_self, Function.update_of_ne hne, Function.update_self, Function.update_of_ne hne]
  case refine_3 =>
    intro k
    exact ChatPair.spent_subset { w with wire := _ } j t' k
  case refine_4 => exact .of_live ⟨hemits.keys hn.live, hres⟩ hq (hacts.flushing.trans hok.flushing) hp hm
  case refine_5 => exact h.chats !j
  case refine_6 =>
    have hflow := h.flow j
    rw [hfl, linkTexts_nil, List.append_nil] at hflow
    dsimp only
    rw [Function.update_self, hl, ChatOk.waiting_eq hp hm, List.append_nil, hflow, Chat.waiting]
  case refine_7 =>
    have hflow := h.flow !j
    rw [Bool.not_not] at hflow
    dsimp only
    rw [Function.update_of_ne hne, List.append_nil]
    exact hflow
  case refine_8 =>
    refine RekeyInv.forall_update j ?_ ?_
    · intro b hb
      rw [Function.update_self, hl] at hb
      exact (hok.texts b hb).1
    · rw [Function.update_of_ne hne]
      exact h.texts _

theorem answer (inits : ∀ g ∈ hs !j, IsInit C (w.sess !j) (idents env !j) g)
    (pend : PendingSession C (w.sess !j) (idents env j).selfPk) (ha : (w.chat j).e2ee.active = false)
    (hy : (w.chat j).e2ee.iAmInitiator = true → (w.chat j).e2ee.initPending = true →
      (idents env !j).selfPk.bytes < (idents env j).selfPk.bytes)
    (hold : ∀ g ∈ hs j, (idents env !j).selfPk.bytes < (idents env j).selfPk.bytes ∧
      ∃ s₀, IsInit C s₀ (idents env j) g) (hfl : ∀ k, fl k = []) :
    ∃ hs' fl', PairInv C env (pairStep C env w (.deliver !j)) hs' fl' := by
  have hne : (!j) ≠ j := Bool.not_ne_self j
  have hok := h.chats j
  have hfr : Friends C (idents env !j) (env j).ident := by
    have := hJ.friends !j
    rwa [Bool.not_not] at this
  rw [hw] at inits
  have hrecv (σ : Draws) := receive_init (ρ := (env j).draws (w.chat j).clock 0) (σ := σ) hC hD hfr
    pend.keys (inits f (List.mem_cons_self ..)) ha hy hok.reliable (hok.unpublished ha)
  obtain ⟨hh, hret, -⟩ := hrecv ((env j).draws 0 0)
  apply h.establish hC hJ hw ha ⟨hh, hret⟩
  · intro σ
    obtain ⟨-, -, ⟨root, hn⟩, hrel, -, hpend⟩ := hrecv σ
    exact ⟨⟨root, false, hn⟩, hpend, hrel⟩
  · intro σ s' l spent' hemits htarget hsp
    obtain ⟨-, -, ⟨root, hn⟩, -, hans, -⟩ := hrecv σ
    set u := (receive C (w.chat j).e2ee (env j).ident ((env j).draws (w.chat j).clock 0) σ f).1
    set reply := (receive C (w.chat j).e2ee (env j).ident ((env j).draws (w.chat j).clock 0) σ f).2
    have hreply : handedOut reply = [reply] := by
      rw [handedOut, if_neg]
      intro h0
      obtain ⟨d, hd, -⟩ := hans.isReply.peek
      rw [h0] at hd
      cases hd
    have hroot : s'.root = root := hemits.shake.root.trans hn.est.root_eq
    refine .answered (!j) (hs j) reply u ?_ ?_ ?_ ?_ ?_ ?_ ?_ ?_ ?_ ?_
    · rw [Function.update_of_ne hne, Bool.not_not]
      exact pend
    · rw [Function.update_of_ne hne, Bool.not_not]
      exact hans
    · rw [Bool.not_not, Function.update_self]
      exact hemits.shake
    · rw [Bool.not_not, Function.update_self]
      exact hemits.keys hn.live
    · intro g hg
      rw [Function.update_of_ne hne, Function.update_self] at hg
      rw [Function.update_of_ne hne]
      exact inits g (List.mem_cons_of_mem f hg)
    · rw [Bool.not_not, Function.update_self, hreply]
    · rw [Bool.not_not]
      exact hold
    · rw [Function.update_of_ne hne]
      exact hfl _
    · rw [Bool.not_not, Function.update_self, Function.update_self, hemits.shake.root]
      exact hemits.acks
    · intro v hv
      rw [Bool.not_not, Function.update_self, hroot] at hv
      have hboth : ∀ k, NewSession C (Function.update (Function.update w.sess j u) (!j) v k) root
          (k == !j) := by
        refine RekeyInv.forall_update j ?_ ?_
        · rw [Function.update_of_ne hne.symm, Function.update_self]
          simpa using hn
        · rw [Function.update_self, beq_self_eq_true]
          exact hv
      have hlink := (Linked.new (!j) hboth hfl w.spent).emits hD hK j (?_ : Emits C _ l s') hsp ?_
      · rw [hfl j, List.nil_append, Function.update_comm hne.symm, Function.update_idem] at hlink
        rwa [Function.update_comm hne.symm]
      · rw [Function.update_of_ne hne.symm, Function.update_self]
        exact hemits
      · intro m hm pk hpk
        rw [htarget m hm] at hpk
        cases hpk

theorem confirm {t : TTSession} (inits : ∀ g ∈ hs j, IsInit C (w.sess j) (idents env j) g)
    (pend : PendingSession C (w.sess j) (idents env !j).selfPk)
    (answer : Answered C (idents env j) (idents env !j) (w.sess j) t f) (same : SameShake t (w.sess !j))
    (hnil : hr = []) (empty : fl j = [])
    (acks : AcksOn C (w.sess !j).root (fl !j))
    (link : ∀ v, NewSession C v (w.sess !j).root true → Linked C (Function.update w.sess j v) fl w.spent) :
    ∃ hs' fl', PairInv C env (pairStep C env w (.deliver !j)) hs' fl' := by
  have hne : (!j) ≠ j := Bool.not_ne_self j
  have hok := h.chats j
  obtain ⟨_, _, -, -, hest⟩ := answer.root
  have hrecv (σ : Draws) := receive_answer (ρ := (env j).draws (w.chat j).clock 0) (σ := σ) hC hD hK
    (hJ.friends j) pend answer hok.reliable (hok.unpublished pend.active)
  obtain ⟨hh, hret, -⟩ := hrecv ((env j).draws 0 0)
  apply h.establish hC hJ hw pend.active ⟨hh, hret⟩
  · intro σ
    obtain ⟨-, -, hn, -, hrel, hpend⟩ := hrecv σ
    exact ⟨⟨_, true, hn⟩, hpend, hrel⟩
  · intro σ s' l spent' hemits htarget hsp
    obtain ⟨-, -, hn, hout, -, -⟩ := hrecv σ
    have hout' : handedOut (receive C (w.chat j).e2ee (env j).ident
        ((env j).draws (w.chat j).clock 0) σ f).2 = [] := by
      have hfed : (receive C (w.chat j).e2ee (env j).ident ((env j).draws (w.chat j).clock 0) σ f).2 = [] := hout
      rw [hfed]
      rfl
    set u := (receive C (w.chat j).e2ee (env j).ident ((env j).draws (w.chat j).clock 0) σ f).1
    have hroot : s'.root = t.root := hemits.shake.root.trans hn.est.root_eq
    have hboth {β : Type} {b : β} (p : TTSession → β) (hj : p s' = b) (hj' : p (w.sess !j) = b) :
        ∀ k, p (Function.update w.sess j s' k) = b := by
      refine RekeyInv.forall_update j ?_ ?_
      · rwa [Function.update_self]
      · rwa [Function.update_of_ne hne]
    rw [hout', List.append_nil, hnil]
    refine .live j t.root ?_ ?_ ?_ ?_ ?_ ?_ ?_ ?_
    · intro g hg
      rw [Function.update_self] at hg
      exact ⟨w.sess j, pend.keys, inits g hg⟩
    · rw [Function.update_of_ne hne, Function.update_self]
    · rw [Function.update_of_ne hne]
      exact same.role.trans hest.role
    · apply hboth TTSession.initPending
      · exact hemits.shake.initPending.trans hn.est.notPending
      · exact same.initPending.trans hest.notPending
    · apply hboth TTSession.replyDue
      · exact hemits.shake.replyDue.trans hn.answered
      · exact same.replyDue.trans answer.replyDue
    · apply hboth TTSession.root
      · exact hroot
      · exact same.root
    · refine RekeyInv.forall_update j ?_ ?_
      · rw [Function.update_self, ← hn.est.root_eq]
        exact hemits.acks
      · rw [Function.update_of_ne hne, ← same.root]
        exact acks
    · rw [← same.root] at hn
      have hlink := (link u hn).emits hD hK j (?_ : Emits C _ l s') hsp ?_
      · rwa [empty, List.nil_append, Function.update_idem] at hlink
      · rw [Function.update_self]
        exact hemits
      · intro m hm pk hpk
        rw [htarget m hm] at hpk
        cases hpk

theorem deliver_shake : ∃ hs' fl', PairInv C env (pairStep C env w (.deliver !j)) hs' fl' := by
  have hne : (!j) ≠ j := Bool.not_ne_self j
  have hfr : Friends C (idents env !j) (env j).ident := by
    have := hJ.friends !j
    rwa [Bool.not_not] at this
  have hmem : f ∈ hs !j := by
    rw [hw]
    exact List.mem_cons_self ..
  have hsub : ∀ g ∈ Function.update hs (!j) hr (!j), g ∈ hs !j := by
    intro g hg
    rw [Function.update_self] at hg
    rw [hw]
    exact List.mem_cons_of_mem f hg
  have hphase := h.phase
  cases hphase with
  | opening stash inactive phase empty =>
    have hwait : (w.chat j).e2ee.active = false := inactive j
    cases phase with
    | idle idle wire started =>
      have hnil : hs (!j) = [] := wire !j
      rw [hnil] at hw
      cases hw
    | one k pend other nonempty inits wire =>
      dsimp only at pend other inits wire
      rcases eq_or_eq_not k j with rfl | rfl
      · rw [wire] at hw
        cases hw
      · rw [Bool.not_not] at hne hw hmem hsub hfr ⊢
        have hgo := h.answer hC hD hK hJ (j := !k) (show hs (!!k) = f :: hr by rwa [Bool.not_not])
        rw [Bool.not_not] at hgo
        apply hgo inits pend hwait _ _ empty
        · intro hrole
          have := other.role
          rw [show (w.chat !k).e2ee = w.sess !k from rfl, this] at hrole
          cases hrole
        · rw [wire]
          simp
    | both k lower pend pend' nonempty inits inits' =>
      dsimp only at pend pend' inits inits'
      rcases eq_or_eq_not k j with rfl | rfl
      · apply h.ignored hD hK hJ hw hwait
          (feed_ignored hfr (inits' f hmem) pend (List.lt_asymm lower))
        refine .opening stash inactive (.both j lower pend pend' ?_ ?_ ?_) empty
        · dsimp only
          rwa [Function.update_of_ne hne.symm]
        · dsimp only
          rwa [Function.update_of_ne hne.symm]
        · exact fun g hg => inits' g (hsub g hg)
      · rw [Bool.not_not] at hw ⊢
        have hgo := h.answer hC hD hK hJ (j := !k) (show hs (!!k) = f :: hr by rwa [Bool.not_not])
        rw [Bool.not_not] at hgo
        exact hgo inits pend hwait (fun _ _ => lower) (fun g hg => ⟨lower, _, inits' g hg⟩) empty
    | answered k old reply pend answer inits wire inits' =>
      obtain ⟨_, _, -, -, hest⟩ := answer.root
      have := inactive !k
      rw [show w.sess (!k) = _ from rfl, hest.active] at this
      cases this
    | done k root initiator responder due inits wire => 
      have := inactive k
      rw [show w.sess k = _ from rfl, initiator.active] at this
      cases this
  | answered k old reply t pend answer same keys inits wire inits' empty acks link =>
    obtain ⟨_, _, -, -, hest⟩ := answer.root
    rcases eq_or_eq_not k j with rfl | rfl
    · rw [wire] at hw
      cases old with
      | nil =>
        cases hw
        exact h.confirm hC hD hK hJ wire inits pend answer same rfl empty acks link
      | cons g old =>
        rw [List.cons_append, List.cons.injEq] at hw
        obtain ⟨rfl, hw⟩ := hw
        obtain ⟨hlt, s₀, hinit⟩ := inits' g (List.mem_cons_self ..)
        apply h.ignored hD hK hJ wire pend.active (feed_ignored hfr hinit pend (List.lt_asymm hlt))
        refine .answered j old reply t pend answer same keys ?_ ?_ ?_ empty acks link
        · rwa [Function.update_of_ne hne.symm]
        · exact Function.update_self ..
        · exact fun g hg => inits' g (List.mem_cons_of_mem _ hg)
    · rw [Bool.not_not] at hw hmem hfr hsub hne ⊢
      have hgo := h.again hC hD hK hJ (j := !k) (show hs (!!k) = f :: hr by rwa [Bool.not_not])
      rw [Bool.not_not] at hgo
      have hrole : (w.chat !k).e2ee.iAmInitiator = false := same.role.trans hest.role
      apply hgo keys.active
        (feed_again hC hD hfr pend.keys (inits f hmem) keys.active hrole)
      refine .answered k old reply t pend answer same keys ?_ ?_ inits' empty acks link
      · exact fun g hg => inits g (hsub g hg)
      · rwa [Function.update_of_ne hne.symm]
  | live k root inits wire responder notPending due roots acks link =>
    rcases eq_or_eq_not k j with rfl | rfl
    · rw [wire] at hw
      cases hw
    · rw [Bool.not_not] at hw hmem hfr hsub hne ⊢
      have hgo := h.again hC hD hK hJ (j := !k) (show hs (!!k) = f :: hr by rwa [Bool.not_not])
      rw [Bool.not_not] at hgo
      obtain ⟨s₀, hkeys, hinit⟩ := inits f hmem
      obtain ⟨used, hi, -⟩ := id link
      have hlive : (w.chat !k).e2ee.active = true := (hi.keys !k).active
      apply hgo hlive (feed_again hC hD hfr hkeys hinit hlive responder)
      refine .live k root ?_ ?_ responder notPending due roots acks link
      · exact fun g hg => inits g (hsub g hg)
      · rwa [Function.update_of_ne hne.symm]

end PairInv

/-! ### Frames of a session -/

section

variable {x : LinkFrame} {fr : List LinkFrame} {m : Sent}

theorem PairPhase.oldest {env : Bool → TTE2EEEnv} {sess : Bool → TTSession} {spent : Bool → List KemPk}
    {started : Bool} (h : PairPhase C env sess hs fl spent started) (hw : hs (!j) = [])
    (hfl : fl (!j) = x :: fr) : (sess j).active = true ∧ AcksOn C (sess j).root (fl !j) ∧
      Linked C sess fl spent := by
  cases h with
  | opening stash inactive phase empty =>
    rw [empty] at hfl
    cases hfl
  | answered k old reply t pend answer same keys inits wire inits' empty acks link =>
    rcases eq_or_eq_not k j with rfl | rfl
    · rw [wire] at hw
      simp at hw
    · rw [Bool.not_not, empty] at hfl
      cases hfl
  | live k root inits wire responder notPending due roots acks link =>
    obtain ⟨used, hi, -⟩ := id link
    refine ⟨(hi.keys j).active, ?_, link⟩
    rw [roots j]
    exact acks !j

theorem PairPhase.drop {env : Bool → TTE2EEEnv} {sess : Bool → TTSession} {spent : Bool → List KemPk}
    {started : Bool} (h : PairPhase C env sess hs fl spent started) (hw : hs (!j) = [])
    (hfl : fl (!j) = x :: fr) {s : TTSession} (hs' : SameShake (sess j) s)
    (hlink : Linked C (Function.update sess j s) (Function.update fl (!j) fr) spent) :
    PairPhase C env (Function.update sess j s) hs (Function.update fl (!j) fr) spent started := by
  have hne : (!j) ≠ j := Bool.not_ne_self j
  cases h with
  | opening stash inactive phase empty =>
    rw [empty] at hfl
    cases hfl
  | answered k old reply t pend answer same keys inits wire inits' empty acks link =>
    rcases eq_or_eq_not k j with rfl | rfl
    · rw [wire] at hw
      simp at hw
    · rw [Bool.not_not, empty] at hfl
      cases hfl
  | live k root inits wire responder notPending due roots acks link =>
    have hshake := hs'.update
    refine .live k root inits wire ?_ ?_ ?_ ?_ ?_ hlink
    · exact (hshake !k).role.trans responder
    · exact fun i => (hshake i).initPending.trans (notPending i)
    · exact fun i => (hshake i).replyDue.trans (due i)
    · exact fun i => (hshake i).root.trans (roots i)
    · refine RekeyInv.forall_update j ?_ ?_
      · rw [Function.update_of_ne hne.symm]
        exact acks j
      · intro f hf
        rw [Function.update_self] at hf
        apply acks (!j) f
        rw [hfl]
        exact List.mem_cons_of_mem x hf

theorem Linked.take {sess : Bool → TTSession} {spent : Bool → List KemPk} (h : Linked C sess fl spent)
    (hfl : fl (!j) = .text m :: fr) {s : TTSession} (hm : DeliverSpec C (sess j) s m)
    (hfresh : m.hdr.length = ttHdrDataKempub → pubKemPk m.hdr ∉ spent j) :
    Linked C (Function.update sess j s) (Function.update fl (!j) fr) spent := by
  obtain ⟨used, hi, hu⟩ := h
  have hwire : (RekeyWorld.mk sess (fun k => linkSents (fl k)) used).wire (!j) = m :: linkSents fr := by
    dsimp only
    rw [hfl, linkSents_text]
  have htake := hi.take hwire (show DeliverSpec C (sess !!j) s m by rwa [Bool.not_not])
    fun hk hmem => hfresh hk (hu j _ (by rwa [Bool.not_not] at hmem))
  rw [Bool.not_not] at htake
  refine ⟨used, ?_, hu⟩
  rw [linkSents_update]
  exact htake

theorem Linked.head {sess : Bool → TTSession} {spent : Bool → List KemPk} (h : Linked C sess fl spent)
    (hfl : fl (!j) = .text m :: fr) : m.On C (sess j).recv ∧ m.Valid C (sess j).rekey := by
  obtain ⟨used, hi, -⟩ := h
  have hl := hi.link !j
  dsimp only at hl
  rw [hfl, Bool.not_not, linkSents_text] at hl
  exact ⟨hl.sync.1, hl.valid m List.mem_cons_self⟩

theorem Linked.ack {sess : Bool → TTSession} {spent : Bool → List KemPk} (h : Linked C sess fl spent)
    (hfl : fl (!j) = .ack f :: fr) : Linked C sess (Function.update fl (!j) fr) spent := by
  obtain ⟨used, hi, hu⟩ := h
  refine ⟨used, ?_, hu⟩
  have hsame : (fun k => linkSents (Function.update fl (!j) fr k)) = fun k => linkSents (fl k) := by
    rw [linkSents_update, Function.update_eq_self_iff, hfl, linkSents_ack]
  rw [hsame]
  exact hi

end

namespace PairInv

variable (hC : C.AeadCorrect) (hD : C.DhCommutes) (hK : C.KemCorrect) (hJ : Joined C env)
  (h : PairInv C env w hs fl) (hw : hs (!j) = []) {fr : List LinkFrame}

include hC hD hK hJ h hw

theorem deliver_ack (hfl : fl (!j) = .ack f :: fr) :
    ∃ hs' fl', PairInv C env (pairStep C env w (.deliver !j)) hs' fl' := by
  have hne : (!j) ≠ j := Bool.not_ne_self j
  have hok := h.chats j
  obtain ⟨ha, hacks, hlink⟩ := h.phase.oldest hw hfl
  obtain ⟨hp, hm⟩ := hok.live ha
  have hwire := h.wire !j
  rw [hw, List.nil_append, hfl, List.map_cons] at hwire
  have hself : Function.update w.sess j (w.sess j) = w.sess := Function.update_eq_self j w.sess
  have hphase := h.phase.drop hw hfl (.refl (w.sess j))
  rw [hself] at hphase
  have hpop : PairInv C env { w with wire := Function.update w.wire (!j) (fr.map LinkFrame.frame) } hs
      (Function.update fl (!j) fr) := by
    have htexts : ∀ k, linkTexts (Function.update fl (!j) fr k) = linkTexts (fl k) := by
      refine RekeyInv.forall_update j ?_ ?_
      · rw [Function.update_of_ne hne.symm]
      · rw [Function.update_self, hfl, linkTexts_ack]
    refine ⟨?_, hphase (hlink.ack hfl), h.chats, ?_, ?_⟩
    · refine RekeyInv.forall_update j ?_ ?_
      · dsimp only
        rw [Function.update_of_ne hne.symm, Function.update_of_ne hne.symm]
        exact h.wire j
      · dsimp only
        rw [Function.update_self, Function.update_self, hw, List.nil_append]
    · intro k
      rw [htexts]
      exact h.flow k
    · intro k
      rw [htexts]
      exact h.texts k
  have hkeys := (h.phase.settled ha).2.2
  have hack : IsAck C (w.chat j).e2ee.root f := hacks f (by rw [hfl]; exact List.mem_cons_self ..)
  obtain ⟨l, t', ht, htalk, hl, hp', hoq⟩ := cbFriendMessage_ack hC (hJ.takes j) (hJ.mode j) (hJ.friend j)
    (hok.liveChat hkeys) hack
  have hstep := pairStep_deliver C env hwire
  rw [LinkFrame.frame, ht] at hstep
  rw [hstep]
  refine ⟨_, _, hpop.quiet hD hK ha htalk ?_ ?_ ?_ ?_⟩
  · rw [hoq]
    exact hok.queue
  · rw [hp', hp]
  · rw [hoq, hm]
  · rw [linkTexts, hl]
    rfl

theorem deliver_text {m : Sent} (hfl : fl (!j) = .text m :: fr)
    (hfresh : ∀ d ∈ ttFramePeek m.frame, d.hdr.length = ttHdrDataKempub → pubKemPk d.hdr ∉ w.spent j) :
    ∃ hs' fl', PairInv C env (pairStep C env w (.deliver !j)) hs' fl' := by
  have hne : (!j) ≠ j := Bool.not_ne_self j
  have hok := h.chats j
  obtain ⟨ha, hacks, hlink⟩ := h.phase.oldest hw hfl
  obtain ⟨hp, hm⟩ := hok.live ha
  obtain ⟨hon, hvalid⟩ := hlink.head hfl
  have hwire := h.wire !j
  rw [hw, List.nil_append, hfl, List.map_cons] at hwire
  have hkeys := (h.phase.settled ha).2.2
  have hne' : m.text ≠ [] := h.texts (!j) m.text (by rw [hfl, linkTexts_text]; exact List.mem_cons_self ..)
  obtain ⟨s, l, t', ht, hspec, hshake, hemits, hacts, hl, hres, hp', hoq⟩ := cbFriendMessage_text hC
    (hJ.takes j) (hJ.mode j) (hJ.friend j) (hok.liveChat hkeys) hon hvalid hne'
  obtain ⟨d, hd, -, hdr⟩ := hon.peek
  have hlink' := hlink.take hfl hspec fun hk => by
    have := hfresh d hd
    rw [hdr] at this
    exact this hk
  have hphase := h.phase.drop hw hfl hshake hlink'
  have hact : (Function.update w.sess j s j).active = true := by
    rw [Function.update_self, hshake.active]
    exact ha
  have hstep := pairStep_deliver C env hwire
  rw [LinkFrame.frame, ht] at hstep
  rw [hstep]
  have hself : Function.update fl (!j) fr j = fl j := Function.update_of_ne hne.symm ..
  have hother (g : List LinkFrame) : Function.update (Function.update fl (!j) fr) j g (!j) = fr := by
    rw [Function.update_of_ne hne, Function.update_self]
  have htalk := hphase.talk hD hK hact (show Emits C _ l t'.e2ee by rwa [Function.update_self])
    (ChatPair.spent_subset { w with wire := Function.update w.wire (!j) (fr.map LinkFrame.frame) } j t')
    (by rw [hl]; simp)
  rw [Function.update_idem, hself] at htalk
  have hlt : linkTexts l = [] := by
    rw [linkTexts, hl]
    rfl
  have hflow := h.flow j
  have hflow' := h.flow !j
  rw [hfl, linkTexts_text, Bool.not_not] at hflow'
  refine ⟨hs, _, of_call (w := { w with wire := Function.update w.wire (!j) (fr.map LinkFrame.frame) })
    hacts ?_ ?_ htalk ?_ (h.chats !j) ?_ ?_ ?_⟩
  · dsimp only
    rw [Function.update_of_ne hne.symm, Function.update_self, List.map_append, ← List.append_assoc, h.wire j]
  · dsimp only
    rw [Function.update_self, hother, hw, List.nil_append]
  · apply ChatOk.of_live ⟨hemits.keys hspec.keys, hres⟩ (hoq ▸ hok.queue) (hacts.flushing.trans hok.flushing)
    · rw [hp', hp]
    · rw [hoq, hm]
  · rw [Function.update_self, linkTexts_append, hlt, List.append_nil, ChatOk.waiting_eq (hp'.trans hp)
      (by rw [hoq, hm])]
    rwa [ChatOk.waiting_eq hp hm] at hflow
  · dsimp only
    rw [hother, hflow', List.append_cons]
  · refine RekeyInv.forall_update j ?_ ?_
    · rw [Function.update_self, linkTexts_append, hlt, List.append_nil]
      exact h.texts j
    · intro b hb
      rw [hother] at hb
      apply h.texts (!j) b
      rw [hfl, linkTexts_text]
      exact List.mem_cons_of_mem _ hb

end PairInv

theorem Chat.New.ok (h : t.New) : ChatOk C t where
  reliable := by rw [h.e2ee]; rfl
  resends := by
    rw [h.e2ee]
    exact ⟨rfl, rfl⟩
  unpublished _ := by rw [h.e2ee]; rfl
  queue := h.oq ▸ TTOqFriend.empty_wf
  flushing := h.flushing
  texts := by
    rw [Chat.waiting, h.e2ee, h.oq]
    simp [TTSession.zero, TTOqFriend.empty, TTOqFriend.messages]
  stash := by
    rw [h.oq]
    exact fun hn => absurd rfl hn
  live ha := by
    rw [h.e2ee] at ha
    cases ha

theorem PairInv.init {chat : Bool → Chat} (hnew : ∀ i, (chat i).New) :
    PairInv C env (.init chat) (fun _ => []) fun _ => [] where
  wire _ := rfl
  phase := by
    have hidle : ∀ i, IdleSession ((ChatPair.init chat).sess i) := by
      intro i
      have hz : (ChatPair.init chat).sess i = .zero := (hnew i).e2ee
      rw [hz]
      exact ⟨rfl, rfl, rfl, rfl⟩
    exact .opening (fun _ => []) (fun i => (hidle i).active) (.idle hidle (fun _ => rfl) rfl) fun _ => rfl
  chats i := (hnew i).ok
  flow i := by
    have hi := hnew i
    have hn := hnew !i
    simp [ChatPair.init, Chat.shown, Chat.waiting, hn.log, hi.e2ee, hi.oq, TTSession.zero, TTOqFriend.empty,
      TTOqFriend.messages]
  texts i b hb := by simp at hb

theorem PairInv.at_rest (h : PairInv C env w hs fl) (hs' : w.started = true) (hw : ∀ i, w.wire i = [])
    (i : Bool) : fl i = [] ∧ (w.chat i).e2ee.active = true := by
  have hnil : ∀ k, hs k = [] ∧ fl k = [] := by
    intro k
    have hk := h.wire k
    rw [hw k] at hk
    obtain ⟨h1, h2⟩ := List.append_eq_nil_iff.mp hk.symm
    exact ⟨h1, List.map_eq_nil_iff.mp h2⟩
  refine ⟨(hnil i).2, ?_⟩
  have hphase := h.phase
  cases hphase with
  | opening stash inactive phase empty =>
    cases phase with
    | idle idle wire started =>
      have hno : w.started = false := started
      rw [hs'] at hno
      cases hno
    | one k pend other nonempty inits wire => exact absurd (hnil k).1 nonempty
    | both k lower pend pend' nonempty inits inits' => exact absurd (hnil k).1 nonempty
    | answered k old reply pend answer inits wire inits' =>
      have hk : hs (!k) = old ++ [reply] := wire
      rw [(hnil !k).1] at hk
      simp at hk
    | done k root initiator responder due inits wire =>
      have hk : (w.sess k).active = true := initiator.active
      rw [inactive k] at hk
      cases hk
  | answered k old reply t pend answer same keys inits wire inits' empty acks link =>
    rw [(hnil !k).1] at wire
    simp at wire
  | live k root inits wire responder notPending due roots acks link =>
    obtain ⟨used, hi, -⟩ := link
    exact (hi.keys i).active

section

variable (hC : C.AeadCorrect) (hD : C.DhCommutes) (hK : C.KemCorrect) (hJ : Joined C env)

include hC hD hK hJ

theorem PairInv.step (h : PairInv C env w hs fl) (op : PairOp) (hok : PairOk C env w op) :
    ∃ hs' fl', PairInv C env (pairStep C env w op) hs' fl' := by
  cases op with
  | send i type text =>
    obtain ⟨fl', h'⟩ := h.send hC hD hK hJ i type text hok
    exact ⟨hs, fl', h'⟩
  | connection i online =>
    obtain ⟨hs', h'⟩ := h.connection hC hD hK hJ i online hok
    exact ⟨hs', fl, h'⟩
  | tick i => exact h.tick hD hK hJ i
  | flushAll i connected => exact ⟨hs, fl, h.flushAll hD hK hJ i connected hok⟩
  | enforce i on => exact ⟨hs, fl, h.enforce hD hK i on⟩
  | deliver i =>
    obtain ⟨j, rfl⟩ : ∃ j, i = !j := ⟨!i, (Bool.not_not i).symm⟩
    have hwire := h.wire !j
    cases hw : hs !j with
    | cons f hr => exact h.deliver_shake hC hD hK hJ hw
    | nil =>
      rw [hw, List.nil_append] at hwire
      cases hfl : fl !j with
      | nil =>
        rw [hfl, List.map_nil] at hwire
        have hsame : pairStep C env w (.deliver !j) = w := by simp only [pairStep, hwire]
        rw [hsame]
        exact ⟨hs, fl, h⟩
      | cons x fr =>
        rw [hfl, List.map_cons] at hwire
        cases x with
        | ack f => exact h.deliver_ack hC hD hK hJ hw hfl
        | text m =>
          apply h.deliver_text hC hD hK hJ hw hfl
          intro d hd
          have hfresh := hok m.frame (by rw [hwire]; rfl) d hd
          rwa [Bool.not_not] at hfresh

/-- Every text submitted on one side has been shown on the other, is read there from the packets in
flight, or waits for the session, each of them once and in order. When a start was made and nothing
is in flight any more, both sides have a session and all texts have been shown. -/
theorem chat_delivery {chat : Bool → Chat} (hnew : ∀ i, (chat i).New) (ops : List PairOp)
    (hm : Machine.Meets (pairStep C env) (PairOk C env) (.init chat) ops) :
    (∀ i ρ, (ops.foldl (pairStep C env) (.init chat)).submitted i =
      ((ops.foldl (pairStep C env) (.init chat)).chat !i).shown ++
        readTexts C (env !i).ident ρ ((ops.foldl (pairStep C env) (.init chat)).chat !i).e2ee
          ((ops.foldl (pairStep C env) (.init chat)).wire i) ++
        ((ops.foldl (pairStep C env) (.init chat)).chat i).waiting) ∧
    ((ops.foldl (pairStep C env) (.init chat)).started = true →
      (∀ i, (ops.foldl (pairStep C env) (.init chat)).wire i = []) →
      ∀ i, ((ops.foldl (pairStep C env) (.init chat)).chat i).e2ee.active = true ∧
        ((ops.foldl (pairStep C env) (.init chat)).chat !i).shown =
          (ops.foldl (pairStep C env) (.init chat)).submitted i) := by
  have hreach := Machine.Reach.run (.refl : Machine.Reach (pairStep C env) (PairOk C env) _ _) hm
  obtain ⟨hs, fl, h⟩ := hreach.invariant (P := fun w => ∃ hs fl, PairInv C env w hs fl)
    ⟨_, _, PairInv.init hnew⟩ (fun w op ⟨hs, fl, h⟩ hok => h.step hC hD hK hJ op hok)
  generalize ops.foldl (pairStep C env) (.init chat) = w at h
  constructor
  · intro i ρ
    have hread := h.reads hC hD hK hJ i ρ
    rw [ChatPair.sess] at hread
    rw [hread]
    exact h.flow i
  · intro hstart hw i
    obtain ⟨hfl, ha⟩ := h.at_rest hstart hw i
    obtain ⟨hp, hq⟩ := (h.chats i).live ha
    have hflow := h.flow i
    rw [hfl, linkTexts_nil, List.append_nil, ChatOk.waiting_eq hp hq, List.append_nil] at hflow
    exact ⟨ha, hflow.symm⟩

end

namespace Instance

def pairChatEnv (i : Bool) : ChatEnv := { chatEnv with ident := pairEnvs i }

theorem pairChatEnv_joined : Joined crypto pairChatEnv where
  friends i := by cases i <;> exact ⟨rfl, rfl, rfl, rfl⟩
  distinct := by decide +kernel
  mode i := by cases i <;> rfl
  takes i n := by cases i <;> exact ⟨1, by decide, rfl⟩

def newChat : Chat where
  e2ee := .zero
  required := false
  fallback := false
  warned := false
  handshakeAt := 0
  oq := .empty
  oqFlushing := false
  clock := 0
  log := []

theorem newChat_new : newChat.New := ⟨rfl, rfl, rfl, rfl⟩

def helloOps : List PairOp :=
  [.send false .normal [104, 105], .connection false true, .deliver false, .send true .action [121, 111],
    .deliver true, .deliver true, .deliver false, .deliver false, .deliver true]

end Instance

theorem chat_delivery_hello :
    let w := Instance.helloOps.foldl (pairStep Instance.crypto Instance.pairChatEnv)
      (.init fun _ => Instance.newChat)
    (∀ i, (w.chat i).e2ee.active = true ∧ (w.chat !i).shown = w.submitted i) ∧
      w.submitted = fun i => if i then [[121, 111]] else [[104, 105]] := by
  refine ⟨?_, ?_⟩
  · exact (chat_delivery Instance.aeadCorrect Instance.dhCommutes Instance.kemCorrect
      Instance.pairChatEnv_joined (fun _ => Instance.newChat_new) Instance.helloOps (by decide +kernel)).2
      (by decide +kernel) (by decide +kernel)
  · funext i
    cases i <;> decide +kernel

end TkTox
