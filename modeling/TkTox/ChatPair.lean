import TkTox.ChatCalls
import TkTox.NoDowngrade

/-!
Two chat engines joined by toxcore, which keeps the order of the messages and loses none. Every
text submitted on one side is shown on the other, once and in order, or is still on its way: in a
frame, in the stash of the session or in the offline queue.
-/

namespace TkTox

open ChatEffect

def isRekeyFrame (f : Bytes) : Bool :=
  match ttFramePeek f with
  | some d => d.type == some .data && d.hdr.length == ttHdrDataRekey
  | none => false

/-- The packets in flight from each side, oldest first, the texts submitted there, and the KEM keys
of the peer it has encapsulated a re-key to. -/
structure ChatPair where
  chat : Bool → Chat
  wire : Bool → List Bytes
  submitted : Bool → List Bytes
  spent : Bool → List KemPk
  started : Bool

namespace ChatPair

def spentBy (t t' : Chat) : List KemPk :=
  if ((t.since t').filterMap packet).any isRekeyFrame then [t.e2ee.rekey.peerKemPk] else []

def call (w : ChatPair) (i : Bool) (t : Chat) : ChatPair :=
  { w with
    chat := Function.update w.chat i t
    wire := Function.update w.wire i (w.wire i ++ ((w.chat i).since t).filterMap packet)
    spent := Function.update w.spent i (spentBy (w.chat i) t ++ w.spent i) }

end ChatPair

inductive PairOp
  | send (i : Bool) (type : ToxMessageType) (text : Bytes)
  | connection (i : Bool) (online : Bool)
  | tick (i : Bool)
  | flushAll (i : Bool) (connected : Bool)
  | enforce (i : Bool) (on : Bool)
  /-- the oldest packet of side `i` reaches the other side -/
  | deliver (i : Bool)

section

variable (C : Crypto) (env : Bool → ChatEnv)

def pairStep (w : ChatPair) : PairOp → ChatPair
  | .send i type text =>
    { w with submitted := Function.update w.submitted i (w.submitted i ++ [text]) }.call i
      (chatStep C (env i) (w.chat i) (.send type text))
  | .connection i online =>
    { w with started := w.started || online }.call i (chatStep C (env i) (w.chat i) (.connection online))
  | .tick i => w.call i (chatStep C (env i) (w.chat i) .tick)
  | .flushAll i connected => w.call i (chatStep C (env i) (w.chat i) (.flushAll connected))
  | .enforce i on => w.call i (chatStep C (env i) (w.chat i) (.enforce on))
  | .deliver i =>
    match w.wire i with
    | [] => w
    | f :: rest =>
      { w with wire := Function.update w.wire i rest }.call (!i)
        (chatStep C (env !i) (w.chat !i) (.receive true f))

def InTime (w : ChatPair) (i : Bool) : Prop := e2eeFallbackDue (env i) (w.chat i) = false

/-- A text is one C string that fits beside any re-key header and finds room in the queue, the
handshake has not timed out where texts are taken up, and no publication of a spent key is taken. -/
def PairOk (w : ChatPair) : PairOp → Prop
  | .send i _ text => InTime env w i ∧ text ≠ [] ∧ 0 ∉ text ∧ RekeyRoom C text ∧
      (w.chat i).oq.count < ttOqMaxPerFriend
  | .connection i _ | .flushAll i _ => (w.chat i).oq.count > 0 → InTime env w i
  | .tick _ | .enforce _ _ => True
  | .deliver i => ∀ f ∈ (w.wire i).head?, ∀ d ∈ ttFramePeek f, d.hdr.length = ttHdrDataKempub →
      pubKemPk d.hdr ∉ w.spent !i

instance (w : ChatPair) : (op : PairOp) → Decidable (PairOk C env w op)
  | .send i _ text => inferInstanceAs (Decidable (e2eeFallbackDue (env i) (w.chat i) = false ∧ text ≠ [] ∧
      0 ∉ text ∧ RekeyRoom C text ∧ (w.chat i).oq.count < ttOqMaxPerFriend))
  | .connection i _ => inferInstanceAs (Decidable ((w.chat i).oq.count > 0 →
      e2eeFallbackDue (env i) (w.chat i) = false))
  | .flushAll i _ => inferInstanceAs (Decidable ((w.chat i).oq.count > 0 →
      e2eeFallbackDue (env i) (w.chat i) = false))
  | .tick _ => isTrue trivial
  | .enforce _ _ => isTrue trivial
  | .deliver i => inferInstanceAs (Decidable (∀ f ∈ (w.wire i).head?, ∀ d ∈ ttFramePeek f,
      d.hdr.length = ttHdrDataKempub → pubKemPk d.hdr ∉ w.spent !i))

end

def Chat.shown (t : Chat) : List Bytes := t.log.filterMap ChatEffect.shown

def Chat.waiting (t : Chat) : List Bytes := t.e2ee.pending ++ t.oq.messages

structure Chat.New (t : Chat) : Prop where
  e2ee : t.e2ee = .zero
  oq : t.oq = .empty
  flushing : t.oqFlushing = false
  log : t.log = []

def ChatPair.sess (w : ChatPair) (i : Bool) : TTSession := (w.chat i).e2ee

def ChatPair.init (chat : Bool → Chat) : ChatPair := ⟨chat, fun _ => [], fun _ => [], fun _ => [], false⟩

variable {C : Crypto} {env : Bool → TTE2EEEnv} {sess : Bool → TTSession} {hs : Bool → List Bytes}
  {fl : Bool → List LinkFrame} {spent spent' : Bool → List KemPk} {started : Bool} {i j : Bool}
  {s' : TTSession} {l : List LinkFrame}

def Linked (C : Crypto) (sess : Bool → TTSession) (fl : Bool → List LinkFrame) (spent : Bool → List KemPk) :
    Prop :=
  ∃ used, RekeyInv C ⟨sess, fun j => linkSents (fl j), used⟩ ∧ ∀ j, ∀ pk ∈ used j, pk ∈ spent j

theorem linkSents_update (fl : Bool → List LinkFrame) (j : Bool) (l : List LinkFrame) :
    (fun k => linkSents (Function.update fl j l k)) =
      Function.update (fun k => linkSents (fl k)) j (linkSents l) := by
  funext k
  by_cases h : k = j
  · subst h
    rw [Function.update_self, Function.update_self]
  · rw [Function.update_of_ne h, Function.update_of_ne h]

theorem Linked.emits (hD : C.DhCommutes) (hK : C.KemCorrect) (h : Linked C sess fl spent) (j : Bool)
    (he : Emits C (sess j) l s') (hsp : ∀ k, spent k ⊆ spent' k)
    (ht : ∀ m ∈ linkSents l, ∀ pk, m.target = some pk → pk ∈ spent' j) :
    Linked C (Function.update sess j s') (Function.update fl j (fl j ++ l)) spent' := by
  obtain ⟨used, hi, hu⟩ := h
  obtain ⟨used', hi', hn, hj⟩ := hi.emits hD hK j rfl he
  refine ⟨used', ?_, RekeyInv.forall_update j ?_ ?_⟩
  · rw [linkSents_update, linkSents_append]
    exact hi'
  · intro pk hpk
    obtain h | ⟨m, hm, hp⟩ := hj pk hpk
    · exact hsp j (hu j pk h)
    · exact ht m hm pk hp
  · intro pk hpk
    rw [hn] at hpk
    exact hsp _ (hu _ pk hpk)

theorem Linked.new {root : Key} (i : Bool) (hn : ∀ k, NewSession C (sess k) root (k == i))
    (hfl : ∀ k, fl k = []) (spent : Bool → List KemPk) : Linked C sess fl spent := by
  refine ⟨fun _ => [], ?_, by simp⟩
  have hnil : (fun k => linkSents (fl k)) = fun _ => [] := by
    funext k
    rw [hfl k]
    rfl
  rw [hnil]
  exact RekeyInv.initial (fun k => (hn k).just) fun k => (hn k).unpublished

theorem Linked.mono (h : Linked C sess fl spent) (hsp : ∀ k, spent k ⊆ spent' k) :
    Linked C sess fl spent' := by
  obtain ⟨used, hi, hu⟩ := h
  exact ⟨used, hi, fun j pk hpk => hsp j (hu j pk hpk)⟩

theorem Sent.On.peek {m : Sent} {r : TTRatchet} (h : m.On C r) :
    ∃ d, ttFramePeek m.frame = some d ∧ d.type = some .data ∧ d.hdr = m.hdr := by
  obtain ⟨flags, nonce, he⟩ := h.encoded
  exact ⟨_, ttFramePeek_encode h.seq_lt he, rfl, rfl⟩

theorem Emits.target {s : TTSession} (h : Emits C s l s') {m : Sent} (hm : m ∈ linkSents l) {pk : KemPk}
    (hpk : m.target = some pk) : pk = s.rekey.peerKemPk ∧ isRekeyFrame m.frame = true := by
  induction h with
  | nil => simp at hm
  | quiet h _ ih =>
    rw [h.rekey] at ih
    exact ih hm
  | @text s t s' n l h _ rest ih =>
    rw [linkSents_text, List.mem_cons] at hm
    obtain hkind | hrekey : t.rekey.peer = s.rekey.peer ∧ n.target = none ∨
        t.rekey.peerHave = false ∧ n.target = some s.rekey.peerKemPk ∧ n.hdr.length = ttHdrDataRekey := by
      rcases h.kind with ⟨-, -, ht, hp⟩ | ⟨-, -, ht, hp⟩ | ⟨seed, dh, -, -, hh, -, ht, hp⟩
      · exact Or.inl ⟨hp, ht⟩
      · exact Or.inl ⟨hp, ht⟩
      · refine Or.inr ⟨hp, ht, ?_⟩
        rw [hh, List.length_append, Blob.bytes_length, Blob.bytes_length]
    · obtain rfl | hm := hm
      · rw [hkind.2] at hpk
        cases hpk
      · have hp : t.rekey.peerKemPk = s.rekey.peerKemPk := congrArg (fun p => p.2.1) hkind.1
        rw [← hp]
        exact ih hm
    · obtain rfl | hm := hm
      · rw [hrekey.2.1] at hpk
        obtain ⟨d, hd, ht, hh⟩ := h.on.peek
        refine ⟨(Option.some.inj hpk).symm, ?_⟩
        simp only [isRekeyFrame, hd, ht, hh, hrekey.2.2]
        decide
      · have hn := (rest.no_target hrekey.1).2 m hm
        rw [hn] at hpk
        cases hpk
  | ack _ _ ih => exact ih hm

/-- Nobody has a session yet; the responder `!i` has answered and may have sent; both have one. The
handshake frames `hs` are older than what else is in flight. -/
inductive PairPhase (C : Crypto) (env : Bool → TTE2EEEnv) (sess : Bool → TTSession)
    (hs : Bool → List Bytes) (fl : Bool → List LinkFrame) (spent : Bool → List KemPk) (started : Bool) :
    Prop
  | opening (stash : Bool → List Bytes) (inactive : ∀ j, (sess j).active = false)
      (phase : Phase C env ⟨sess, hs, started, stash⟩) (empty : ∀ j, fl j = [])
  | answered (i : Bool) (old : List Bytes) (reply : Bytes) (t : TTSession)
      (pend : PendingSession C (sess i) (env !i).selfPk)
      (answer : Answered C (env i) (env !i) (sess i) t reply) (same : SameShake t (sess !i))
      (keys : RekeyKeys C (sess !i))
      (inits : ∀ f ∈ hs i, IsInit C (sess i) (env i) f) (wire : hs (!i) = old ++ [reply])
      (inits' : ∀ f ∈ old, (env i).selfPk.bytes < (env !i).selfPk.bytes ∧
        ∃ s₀, IsInit C s₀ (env !i) f)
      (empty : fl i = []) (acks : AcksOn C (sess !i).root (fl !i))
      (link : ∀ v, NewSession C v (sess !i).root true → Linked C (Function.update sess i v) fl spent)
  | live (i : Bool) (root : Key)
      (inits : ∀ f ∈ hs i, ∃ s₀, PendingKeys C s₀ (env !i).selfPk ∧ IsInit C s₀ (env i) f)
      (wire : hs (!i) = []) (responder : (sess !i).iAmInitiator = false)
      (notPending : ∀ j, (sess j).initPending = false) (due : ∀ j, (sess j).replyDue = false)
      (roots : ∀ j, (sess j).root = root) (acks : ∀ j, AcksOn C root (fl j))
      (link : Linked C sess fl spent)

theorem SameShake.update {s : TTSession} (h : SameShake (sess j) s) (k : Bool) :
    SameShake (sess k) (Function.update sess j s k) := by
  rcases eq_or_eq_not j k with rfl | rfl
  · rwa [Function.update_self]
  · rw [Function.update_of_ne (Bool.not_ne_self j)]
    exact .refl _

namespace PairPhase

variable (h : PairPhase C env sess hs fl spent started)

include h

theorem settled (ha : (sess j).active = true) :
    (sess j).initPending = false ∧ (sess j).replyDue = false ∧ RekeyKeys C (sess j) := by
  cases h with
  | opening stash inactive phase empty =>
    rw [inactive j] at ha
    cases ha
  | answered i old reply t pend answer same keys inits wire inits' empty acks link =>
    obtain ⟨_, _, -, -, hest⟩ := answer.root
    rcases eq_or_eq_not i j with rfl | rfl
    · rw [pend.active] at ha
      cases ha
    · exact ⟨same.initPending.trans hest.notPending, same.replyDue.trans answer.replyDue, keys⟩
  | live i root inits wire responder notPending due roots acks link =>
    obtain ⟨used, hi, -⟩ := link
    exact ⟨notPending j, due j, hi.keys j⟩

theorem talk (hD : C.DhCommutes) (hK : C.KemCorrect) (ha : (sess j).active = true)
    (he : Emits C (sess j) l s') (hsp : ∀ k, spent k ⊆ spent' k)
    (ht : ∀ m ∈ linkSents l, ∀ pk, m.target = some pk → pk ∈ spent' j) :
    PairPhase C env (Function.update sess j s') hs (Function.update fl j (fl j ++ l)) spent' started := by
  have hne : (!j) ≠ j := Bool.not_ne_self j
  cases h with
  | opening stash inactive phase empty =>
    rw [inactive j] at ha
    cases ha
  | answered i old reply t pend answer same keys inits wire inits' empty acks link =>
    rcases eq_or_eq_not i j with rfl | rfl
    · rw [pend.active] at ha
      cases ha
    have hi : i ≠ !i := (Bool.not_ne_self i).symm
    refine .answered i old reply t ?_ ?_ ?_ ?_ ?_ wire inits' ?_ ?_ ?_
    · rwa [Function.update_of_ne hi]
    · rwa [Function.update_of_ne hi]
    · rw [Function.update_self]
      exact same.trans he.shake
    · rw [Function.update_self]
      exact he.keys keys
    · rwa [Function.update_of_ne hi]
    · rwa [Function.update_of_ne hi]
    · rw [Function.update_self, Function.update_self, he.shake.root]
      exact acks.append he.acks
    · intro v hv
      rw [Function.update_self, he.shake.root] at hv
      have hl := (link v hv).emits hD hK (!i) (?_ : Emits C _ l s') hsp ht
      · rwa [Function.update_comm hi.symm]
      · rwa [Function.update_of_ne hi.symm]
  | live i root inits wire responder notPending due roots acks link =>
    have hshake := he.shake.update
    refine .live i root inits wire ?_ ?_ ?_ ?_ ?_ (link.emits hD hK j he hsp ht)
    · exact (hshake !i).role.trans responder
    · exact fun k => (hshake k).initPending.trans (notPending k)
    · exact fun k => (hshake k).replyDue.trans (due k)
    · exact fun k => (hshake k).root.trans (roots k)
    · have hack := he.acks
      rw [roots j] at hack
      refine RekeyInv.forall_update j ?_ ?_
      · rw [Function.update_self]
        exact (acks j).append hack
      · rw [Function.update_of_ne hne]
        exact acks _

theorem tick (ha : (sess j).active = false) (ρ : Draws) (now : ℤ) :
    PairPhase C env (Function.update sess j (ttSessionTick C (sess j) (env j) ρ now ttFrameMax).1)
      (Function.update hs j (hs j ++
        handedOut (okBytes (ttSessionTick C (sess j) (env j) ρ now ttFrameMax).2))) fl spent started := by
  have hact : (ttSessionTick C (sess j) (env j) ρ now ttFrameMax).1.active = false := by
    unfold ttSessionTick
    split_ifs <;> exact ha
  cases h with
  | opening stash inactive phase empty =>
    refine .opening stash ?_ (phase_tick phase j ρ now) empty
    refine RekeyInv.forall_update j ?_ ?_
    · rw [Function.update_self]
      exact hact
    · rw [Function.update_of_ne (Bool.not_ne_self j)]
      exact inactive _
  | answered i old reply t pend answer same keys inits wire inits' empty acks link =>
    obtain ⟨_, _, -, -, hest⟩ := answer.root
    rcases eq_or_eq_not i j with rfl | rfl
    · have hne : (!j) ≠ j := Bool.not_ne_self j
      have hlink : ∀ (u v : TTSession), NewSession C v (sess !j).root true →
          Linked C (Function.update (Function.update sess j u) j v) fl spent := by
        intro u v hv
        rw [Function.update_idem]
        exact link v hv
      rcases ttSessionTick_spec (C := C) (sess j) (env j) ρ now ttFrameMax with hidle | ⟨-, hs', hout⟩
      · rw [hidle]
        have hnil : handedOut (okBytes (.ok [] : Except TTE2EEStatus Bytes)) = [] := rfl
        rw [hnil, List.append_nil, Function.update_eq_self, Function.update_eq_self]
        exact .answered j old reply t pend answer same keys inits wire inits' empty acks link
      · rw [hs']
        refine .answered j old reply t ?_ ?_ ?_ ?_ ?_ ?_ inits' empty ?_ ?_
        · rw [Function.update_self]
          exact pend.of_initAt now
        · rw [Function.update_self]
          exact ⟨answer.root, answer.replyDue, answer.isReply⟩
        · rwa [Function.update_of_ne hne]
        · rwa [Function.update_of_ne hne]
        · intro f hf
          rw [Function.update_self, List.mem_append] at hf
          rw [Function.update_self]
          obtain hf | hf := hf
          · exact inits f hf
          · unfold handedOut at hf
            split_ifs at hf with h0
            · cases hf
            · rw [List.mem_singleton.mp hf]
              exact hout.resolve_left h0
        · rwa [Function.update_of_ne hne]
        · rwa [Function.update_of_ne hne]
        · rw [Function.update_of_ne hne]
          exact hlink _
    · rw [same.active, hest.active] at ha
      cases ha
  | live i root inits wire responder notPending due roots acks link =>
    obtain ⟨used, hi, -⟩ := link
    have hlive : (sess j).active = true := (hi.keys j).active
    rw [ha] at hlive
    cases hlive

theorem stash (ha : (sess j).active = false) (q : List Bytes) :
    PairPhase C env (Function.update sess j { sess j with pending := q }) hs fl spent started := by
  cases h with
  | opening stash inactive phase empty =>
    have hp := phase.of_pending (Function.update (fun i => (sess i).pending) j q) stash
    have hsess : (fun k => { sess k with pending := Function.update (fun i => (sess i).pending) j q k }) =
        Function.update sess j { sess j with pending := q } := by
      funext k
      by_cases hk : k = j
      · subst hk
        rw [Function.update_self, Function.update_self]
      · rw [Function.update_of_ne hk, Function.update_of_ne hk]
    dsimp only at hp
    rw [hsess] at hp
    refine .opening stash ?_ hp empty
    refine RekeyInv.forall_update j ?_ ?_
    · rw [Function.update_self]
      exact ha
    · rw [Function.update_of_ne (Bool.not_ne_self j)]
      exact inactive _
  | answered i old reply t pend answer same keys inits wire inits' empty acks link =>
    obtain ⟨ρ₀, l, hl, hk, hest⟩ := answer.root
    rcases eq_or_eq_not i j with rfl | rfl
    · have hne : (!j) ≠ j := Bool.not_ne_self j
      refine .answered j old reply t ?_ ?_ ?_ ?_ ?_ wire inits' empty ?_ ?_
      · rw [Function.update_self]
        exact ⟨pend.active, pend.role, pend.initPending, pend.replyDue,
          ⟨pend.keys.a2, pend.keys.a3, pend.keys.kem, pend.keys.sealKey⟩⟩
      · rw [Function.update_self]
        exact ⟨⟨ρ₀, l, hl, hk, hest⟩, answer.replyDue, answer.isReply⟩
      · rwa [Function.update_of_ne hne]
      · rwa [Function.update_of_ne hne]
      · rw [Function.update_self]
        exact inits
      · rwa [Function.update_of_ne hne]
      · intro v hv
        rw [Function.update_of_ne hne] at hv
        rw [Function.update_idem]
        exact link v hv
    · rw [same.active, hest.active] at ha
      cases ha
  | live i root inits wire responder notPending due roots acks link =>
    obtain ⟨used, hi, -⟩ := link
    have hlive : (sess j).active = true := (hi.keys j).active
    rw [ha] at hlive
    cases hlive

theorem start (hC : C.AeadCorrect) (hD : C.DhCommutes) (hF : ∀ i, Friends C (env i) (env !i))
    (hne : (env false).selfPk ≠ (env true).selfPk) (ha : (sess j).active = false)
    (hp : (sess j).initPending = false) (hr : (sess j).replyDue = false) (ρ : Draws) (now : ℤ) :
    PairPhase C env (Function.update sess j (ttSessionStart C (sess j) (env j) ρ now ttFrameMax).1)
      (Function.update hs j (hs j ++
        handedOut (okBytes (ttSessionStart C (sess j) (env j) ρ now ttFrameMax).2))) fl spent true := by
  cases h with
  | opening stash inactive phase empty =>
    have hs' := phase_start hC hD hF hne phase j ρ now
    rw [peersStep, if_neg (by simp [ha, hp, hr])] at hs'
    refine .opening stash ?_ hs' empty
    refine RekeyInv.forall_update j ?_ ?_
    · rw [Function.update_self]
      rcases ttSessionStart_inactive C (sess j) (env j) ρ now ttFrameMax with he | he
      · rw [he]
        exact ha
      · exact he
    · rw [Function.update_of_ne (Bool.not_ne_self j)]
      exact inactive _
  | answered i old reply t pend answer same keys inits wire inits' empty acks link =>
    obtain ⟨_, _, -, -, hest⟩ := answer.root
    rcases eq_or_eq_not i j with rfl | rfl
    · rw [pend.initPending] at hp
      cases hp
    · rw [same.active, hest.active] at ha
      cases ha
  | live i root inits wire responder notPending due roots acks link =>
    obtain ⟨used, hi, -⟩ := link
    have hlive : (sess j).active = true := (hi.keys j).active
    rw [ha] at hlive
    cases hlive

theorem begun (hb : (sess j).active = true ∨ (sess j).initPending = true ∨ (sess j).replyDue = true)
    (started' : Bool) : PairPhase C env sess hs fl spent started' := by
  cases h with
  | opening stash inactive phase empty =>
    refine .opening stash inactive ?_ empty
    cases phase with
    | idle idle wire _ =>
      have hj := idle j
      rcases hb with h | h | h
      · rw [hj.active] at h
        cases h
      · rw [hj.initPending] at h
        cases h
      · rw [hj.replyDue] at h
        cases h
    | one i pend other nonempty inits wire => exact .one i pend other nonempty inits wire
    | both i lower pend pend' nonempty inits inits' =>
      exact .both i lower pend pend' nonempty inits inits'
    | answered i old reply pend answer inits wire inits' =>
      exact .answered i old reply pend answer inits wire inits'
    | done i root initiator responder due inits wire =>
      exact .done i root initiator responder due inits wire
  | answered i old reply t pend answer same keys inits wire inits' empty acks link =>
    exact .answered i old reply t pend answer same keys inits wire inits' empty acks link
  | live i root inits wire responder notPending due roots acks link =>
    exact .live i root inits wire responder notPending due roots acks link

end PairPhase

/-! ### The invariant -/

/-- One side's chat. Before there is a session texts go to the queue behind a full stash only, and
with one nothing waits. -/
structure ChatOk (C : Crypto) (t : Chat) : Prop where
  reliable : t.e2ee.lossy = false
  resends : NoResends t.e2ee
  unpublished : t.e2ee.active = false → t.e2ee.rekey.peerHave = false
  queue : t.oq.Wf
  flushing : t.oqFlushing = false
  texts : ∀ b ∈ t.waiting, b ≠ [] ∧ RekeyRoom C b
  stash : t.oq.messages ≠ [] → ttSessionPendingMax ≤ t.e2ee.pending.length
  live : t.e2ee.active = true → t.e2ee.pending = [] ∧ t.oq.messages = []

def idents (env : Bool → ChatEnv) (i : Bool) : TTE2EEEnv := (env i).ident

/-- `hs` and `fl` are what is in flight, the handshake frames first. -/
structure PairInv (C : Crypto) (env : Bool → ChatEnv) (w : ChatPair) (hs : Bool → List Bytes)
    (fl : Bool → List LinkFrame) : Prop where
  wire : ∀ i, w.wire i = hs i ++ (fl i).map LinkFrame.frame
  phase : PairPhase C (idents env) w.sess hs fl w.spent w.started
  chats : ∀ i, ChatOk C (w.chat i)
  flow : ∀ i, w.submitted i = (w.chat !i).shown ++ linkTexts (fl i) ++ (w.chat i).waiting
  texts : ∀ i, ∀ b ∈ linkTexts (fl i), b ≠ []

section

variable {env : Bool → ChatEnv} {w : ChatPair} {t t' : Chat} {out texts : List Bytes}

theorem Acts.since (h : Acts t t' out texts) :
    (t.since t').filterMap packet = out ∧ t'.shown = t.shown ++ texts := by
  obtain ⟨l, hl, ho, ht⟩ := h.log
  constructor
  · rw [Chat.since, hl, List.drop_left, ho]
  · rw [Chat.shown, Chat.shown, hl, List.filterMap_append, ht]

theorem Talks.mem_spentBy {l : List LinkFrame} (h : Talks C t t' l) {m : Sent} (hm : m ∈ linkSents l) {pk : KemPk}
    (hpk : m.target = some pk) : pk ∈ ChatPair.spentBy t t' := by
  obtain ⟨hp, hr⟩ := h.emits.target hm hpk
  have hf : m.frame ∈ l.map LinkFrame.frame := by
    obtain ⟨x, hx, hxm⟩ := List.mem_filterMap.mp hm
    cases x with
    | text n =>
      cases hxm
      exact List.mem_map_of_mem hx
    | ack f => cases hxm
  rw [ChatPair.spentBy, h.acts.since.1, if_pos (List.any_eq_true.mpr ⟨_, hf, hr⟩), hp]
  exact List.mem_singleton_self _

theorem ChatPair.call_sess (w : ChatPair) (j : Bool) (t : Chat) :
    (w.call j t).sess = Function.update w.sess j t.e2ee := by
  funext k
  by_cases h : k = j
  · subst h
    simp [ChatPair.sess, ChatPair.call]
  · simp [ChatPair.sess, ChatPair.call, Function.update_of_ne h]

theorem ChatPair.spent_subset (w : ChatPair) (j : Bool) (t : Chat) (k : Bool) :
    w.spent k ⊆ (w.call j t).spent k := by
  by_cases h : k = j
  · subst h
    simp [ChatPair.call]
  · simp [ChatPair.call, Function.update_of_ne h]

theorem PairInv.of_call {j : Bool} (ha : Acts (w.chat j) t out texts)
    (hwire : w.wire j ++ out = hs j ++ (fl j).map LinkFrame.frame)
    (hwire' : w.wire (!j) = hs (!j) ++ (fl !j).map LinkFrame.frame)
    (hphase : PairPhase C (idents env) (Function.update w.sess j t.e2ee) hs fl (w.call j t).spent w.started)
    (hok : ChatOk C t) (hok' : ChatOk C (w.chat !j))
    (hflow : w.submitted j = (w.chat !j).shown ++ linkTexts (fl j) ++ t.waiting)
    (hflow' : w.submitted (!j) = (w.chat j).shown ++ texts ++ linkTexts (fl !j) ++ (w.chat !j).waiting)
    (htexts : ∀ i, ∀ b ∈ linkTexts (fl i), b ≠ []) : PairInv C env (w.call j t) hs fl := by
  have hne : (!j) ≠ j := Bool.not_ne_self j
  obtain ⟨hout, hshown⟩ := ha.since
  constructor
  case wire =>
    refine RekeyInv.forall_update j ?_ ?_
    · simp only [ChatPair.call, Function.update_self, hout, hwire]
    · simp only [ChatPair.call, Function.update_of_ne hne, hwire']
  case phase =>
    rw [ChatPair.call_sess]
    exact hphase
  case chats =>
    refine RekeyInv.forall_update j ?_ ?_
    · simpa only [ChatPair.call, Function.update_self] using hok
    · simpa only [ChatPair.call, Function.update_of_ne hne] using hok'
  case flow =>
    refine RekeyInv.forall_update j ?_ ?_
    · simpa only [ChatPair.call, Function.update_self, Function.update_of_ne hne] using hflow
    · simp only [ChatPair.call, Bool.not_not, Function.update_self, Function.update_of_ne hne, hshown]
      exact hflow'
  case texts => exact htexts

theorem ChatOk.liveChat (h : ChatOk C t) (hk : RekeyKeys C t.e2ee) : LiveChat C t := ⟨hk, h.resends⟩

theorem ChatOk.of_live (hL : LiveChat C t) (hq : t.oq.Wf) (hf : t.oqFlushing = false)
    (hp : t.e2ee.pending = []) (hm : t.oq.messages = []) : ChatOk C t where
  reliable := hL.keys.reliable
  resends := hL.resends
  unpublished ha := by
    rw [hL.keys.active] at ha
    cases ha
  queue := hq
  flushing := hf
  texts b hb := by simp [Chat.waiting, hp, hm] at hb
  stash hn := absurd hm hn
  live _ := ⟨hp, hm⟩

theorem ChatOk.waiting_eq (hp : t.e2ee.pending = []) (hm : t.oq.messages = []) : t.waiting = [] := by
  rw [Chat.waiting, hp, hm]
  rfl

theorem PairInv.talk (hD : C.DhCommutes) (hK : C.KemCorrect) (h : PairInv C env w hs fl) {j : Bool}
    (ha : (w.chat j).e2ee.active = true) (submitted : List Bytes) {l : List LinkFrame}
    (ht : Talks C (w.chat j) t l) (hq : t.oq.Wf) (hp : t.e2ee.pending = []) (hm : t.oq.messages = [])
    (htexts : linkTexts l = submitted) (hne : ∀ b ∈ submitted, b ≠ []) :
    PairInv C env
      ({ w with submitted := Function.update w.submitted j (w.submitted j ++ submitted) }.call j t) hs
      (Function.update fl j (fl j ++ l)) := by
  have hnj : (!j) ≠ j := Bool.not_ne_self j
  have hlive : (w.sess j).active = true := ha
  obtain ⟨-, -, hkeys⟩ := h.phase.settled hlive
  have hL := ht.live ((h.chats j).liveChat hkeys)
  have hflow := h.flow j
  have hflow' := h.flow !j
  have hwait := ChatOk.waiting_eq ((h.chats j).live ha).1 ((h.chats j).live ha).2
  rw [Bool.not_not] at hflow'
  apply PairInv.of_call
    (w := { w with submitted := Function.update w.submitted j (w.submitted j ++ submitted) }) ht.acts
  case hwire =>
    rw [Function.update_self, List.map_append, ← List.append_assoc]
    exact congrArg (· ++ l.map LinkFrame.frame) (h.wire j)
  case hwire' =>
    rw [Function.update_of_ne hnj]
    exact h.wire !j
  case hphase =>
    apply h.phase.talk hD hK hlive ht.emits
    · intro k
      exact ChatPair.spent_subset { w with submitted := _ } j t k
    · intro m hm pk hpk
      simp [ChatPair.call, ht.mem_spentBy hm hpk]
  case hok => exact .of_live hL hq (ht.acts.flushing.trans (h.chats j).flushing) hp hm
  case hok' => exact h.chats !j
  case hflow =>
    dsimp only
    rw [Function.update_self, Function.update_self, linkTexts_append, htexts, hflow, hwait,
      ChatOk.waiting_eq hp hm, List.append_nil, List.append_nil, List.append_assoc]
  case hflow' =>
    dsimp only
    rw [Function.update_of_ne hnj, Function.update_of_ne hnj, List.append_nil]
    exact hflow'
  case htexts =>
    refine RekeyInv.forall_update j ?_ ?_
    · intro b hb
      rw [Function.update_self, linkTexts_append, htexts, List.mem_append] at hb
      obtain hb | hb := hb
      · exact h.texts j b hb
      · exact hne b hb
    · rw [Function.update_of_ne hnj]
      exact h.texts _

end

end TkTox
