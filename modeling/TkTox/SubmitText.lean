import TkTox.OfflineFlush

/-!
What becomes of a text that is submitted for a friend with a session (`TT_CMD_SEND_MESSAGE`): its
chunks go through the session one after the other, and what is left when one fails is put into one
slot of the offline queue.
-/

namespace TkTox

open ChatEffect

section

variable (C : Crypto) (env : ChatEnv)

def messageId (t : Chat) : ℕ :=
  match env.message t.clock with
  | .ok mid => mid
  | _ => 0

def sendStep (type : ToxMessageType) (t : Chat) (p : Piece) : Chat × ChunkAns :=
  match sendChunk C env t type p with
  | (t', .sent) => (t'.emit (.event (.messageSent (messageId env t))), .sent)
  | r => r

def sendLoop (type : ToxMessageType) : List Piece → Chat → Chat × List Piece
  | [], t => (t, [])
  | p :: ps, t =>
    match sendStep C env type t p with
    | (t, .failed) => (t, p :: ps)
    | (t, _) => sendLoop type ps t

def requeueTail : List Piece → Chat → Chat
  | [], t => t
  | p :: ps, t => t.requeue (joinChunks p ps)

def sendText (type : ToxMessageType) (text : Bytes) (t : Chat) : Chat :=
  let r := sendLoop C env type (textChunks ⟨0, text⟩) t
  requeueTail r.2 r.1

def sendPlain (type : ToxMessageType) (text : Bytes) (t : Chat) : Chat :=
  match env.message t.clock with
  | .ok mid => (t.tick.emit (.plain type ⟨0, text⟩)).emit (.event (.messageSent mid))
  | .notConnected => t.tick.requeue ⟨0, text⟩
  | .other => t.tick

def sendBlockedWarn : String :=
  "E2EE is required for this contact, but they do not support it — message not sent."

def sendPlainWarn : String :=
  "This contact does not support end-to-end encryption — message sent in plaintext."

def handleCmdSendMessage (type : ToxMessageType) (text : Bytes) (t : Chat) : Chat :=
  if env.mode ∧ env.ident.peerPk ≠ none then
    if e2eeFallbackDue env t then
      if t.required then e2eeWarn t sendBlockedWarn
      else sendPlain env type text (e2eeWarn { t with fallback := true } sendPlainWarn)
    else sendText C env type text t
  else sendPlain env type text t

/-- The command is on the encrypted path. -/
def OnSession (t : Chat) : Prop :=
  env.mode = true ∧ env.ident.peerPk ≠ none ∧ e2eeFallbackDue env t = false

end

def kept (b : Bytes) : Bytes := (cString b).take toxMaxMessageLength

def OneSlot (b : Bytes) : Prop := b.length ≤ toxMaxMessageLength ∧ 0 ∉ b

theorem kept_eq_self_iff (b : Bytes) : kept b = b ↔ OneSlot b := by
  constructor
  · intro h
    constructor
    · rw [← h, kept, List.length_take]
      exact Nat.min_le_left _ _
    · intro hz
      rw [← h, kept] at hz
      simpa using List.mem_takeWhile_imp (List.mem_of_mem_take hz)
  · rintro ⟨hl, hz⟩
    rw [kept, cString_eq_self_iff.mpr hz, List.take_of_length_le hl]

theorem TTOqFriend.Wf.messages_put_kept {fr : TTOqFriend} (h : fr.Wf)
    (hroom : fr.messages.length < ttOqMaxPerFriend) (b : Bytes) :
    ∃ appended, (fr.put b).messages = fr.messages ++ appended ∧ appended.flatten = kept b := by
  rw [h.messages_length] at hroom
  by_cases hb : cString b = []
  · refine ⟨[], ?_, ?_⟩
    · rw [TTOqFriend.put, if_pos hb, List.append_nil]
    · rw [kept, hb]
      rfl
  · refine ⟨[kept b], ?_, ?_⟩
    · rw [TTOqFriend.put, if_neg hb, fr.messages_add b h.count h.absent,
        if_neg (Nat.ne_of_lt hroom)]
      rfl
    · rw [List.flatten_singleton]

/-- What went to toxcore, each piece of it sealed in its frame, what the stash has gained and what the
queue has gained are the text. -/
def Keeps (C : Crypto) (env : ChatEnv) (t t' : Chat) (text : Bytes) : Prop :=
  (∀ e ∈ t.since t', e.Sealed C env.ident true t.e2ee) ∧ ∃ stashed appended, t'.e2ee.pending = t.e2ee.pending ++ stashed ∧
    t'.oq.messages = t.oq.messages ++ appended ∧
    ((t.since t').filterMap handedPiece).flatMap Piece.bytes ++ stashed.flatten ++
      appended.flatten = text

theorem flatMap_bytes (ps : List Piece) : ps.flatMap Piece.bytes = (ps.map Piece.bytes).flatten :=
  List.flatMap_def

theorem keeps_requeueTail_iff {C : Crypto} {env : ChatEnv} {t t' : Chat} {h s : List Piece} {rest : List Piece}
    (hheld : Held C env true False t (requeueTail rest t')) (d : Did t t' h s [])
    (hroom : t.oq.messages.length < ttOqMaxPerFriend) (text : Bytes) :
    Keeps C env t (requeueTail rest t') text ↔
      h.flatMap Piece.bytes ++ s.flatMap Piece.bytes ++ kept (rest.flatMap Piece.bytes) = text := by
  have hqueue : t'.oq.messages = t.oq.messages := by
    rw [d.queue]
    simp
  obtain ⟨l, hl, hh, -, -⟩ := d.log
  have hput : ∃ appended, (requeueTail rest t').oq.messages = t.oq.messages ++ appended ∧
      appended.flatten = kept (rest.flatMap Piece.bytes) := by
    cases rest with
    | nil => exact ⟨[], by simp [requeueTail, hqueue], rfl⟩
    | cons p ps =>
      obtain ⟨appended, ha, hk⟩ := d.wf.messages_put_kept (by rwa [hqueue])
        ((p :: ps).flatMap Piece.bytes)
      rw [hqueue] at ha
      exact ⟨appended, ha, hk⟩
  have hpend : (requeueTail rest t').e2ee.pending = t.e2ee.pending ++ s.map Piece.bytes := by
    rw [← d.pending]
    cases rest <;> rfl
  have hlog : (t.since (requeueTail rest t')).filterMap handedPiece = h := by
    cases rest with
    | nil => rw [requeueTail, Chat.since, hl, List.drop_left, hh]
    | cons p ps =>
      rw [requeueTail, Chat.since, Chat.requeue, Chat.emit_log, hl, List.append_assoc, List.drop_left,
        List.filterMap_append, hh]
      exact List.append_nil h
  obtain ⟨appended, ha, hk⟩ := hput
  rw [Keeps, hlog, hpend, ha]
  constructor
  · rintro ⟨-, stashed, appended', hs, ha', htext⟩
    obtain rfl := List.append_cancel_left hs
    obtain rfl := List.append_cancel_left ha'
    rw [← hk, flatMap_bytes s]
    exact htext
  · intro htext
    refine ⟨hheld.since_sealed, _, _, rfl, rfl, ?_⟩
    rw [hk, ← flatMap_bytes]
    exact htext

variable {C : Crypto} {env : ChatEnv} {t : Chat} {type : ToxMessageType}

theorem sendStep_active (C : Crypto) (env : ChatEnv) (ha : t.e2ee.active = true) (hwf : t.oq.Wf) (type : ToxMessageType) {p : Piece}
    (hp : p.bytes.length ≤ ttE2eeChunk) :
    ((sendStep C env type t p).2 = .sent ∧ Did t (sendStep C env type t p).1 [p] [] []) ∨
      ((sendStep C env type t p).2 = .failed ∧ ¬ Taken C env t p ∧
        Did t (sendStep C env type t p).1 [] [] []) ∨
      ((sendStep C env type t p).2 = .failed ∧ Taken C env t p ∧
        Did t (sendStep C env type t p).1 [p] [] []) := by
  have hsend := sendChunk_active C env ha hwf type hp
  unfold sendStep
  cases hr : sendChunk C env t type p with
  | mk t' ans =>
    rw [hr] at hsend
    dsimp only at hsend
    obtain ⟨rfl, d⟩ | ⟨rfl, hn, d⟩ | ⟨rfl, hn, d⟩ := hsend
    · exact Or.inl ⟨rfl, d.trans (did_event d.wf _)⟩
    · exact Or.inr (Or.inl ⟨rfl, hn, d⟩)
    · exact Or.inr (Or.inr ⟨rfl, hn, d⟩)

section

variable (C : Crypto) (env : ChatEnv)

/-- At the first chunk that fails, one slot of the queue holds the rest of the text. (When toxcore
has taken the frame after all, under the id 0, the slot has to hold what comes behind the chunk.) -/
def LiveFits (type : ToxMessageType) : List Piece → Chat → Prop
  | [], _ => True
  | p :: ps, t =>
    if (sendStep C env type t p).2 = .failed then
      (¬ Taken C env t p ∧ OneSlot ((p :: ps).flatMap Piece.bytes)) ∨
        (Taken C env t p ∧ kept ((p :: ps).flatMap Piece.bytes) = ps.flatMap Piece.bytes)
    else LiveFits type ps (sendStep C env type t p).1

end

theorem sendLoop_failed {p : Piece} {ps : List Piece} (h : (sendStep C env type t p).2 = .failed) :
    sendLoop C env type (p :: ps) t = ((sendStep C env type t p).1, p :: ps) := by
  rw [sendLoop]
  cases hr : sendStep C env type t p with
  | mk t' ans =>
    rw [hr] at h
    dsimp only at h
    rw [h]

theorem sendLoop_next {p : Piece} {ps : List Piece} (h : (sendStep C env type t p).2 ≠ .failed) :
    sendLoop C env type (p :: ps) t = sendLoop C env type ps (sendStep C env type t p).1 := by
  rw [sendLoop]
  cases hr : sendStep C env type t p with
  | mk t' ans =>
    rw [hr] at h
    cases ans with
    | failed => exact absurd rfl h
    | stashed => rfl
    | sent => rfl

theorem sendLoop_active (C : Crypto) (env : ChatEnv) (type : ToxMessageType) {ps : List Piece} (ha : t.e2ee.active = true) (hwf : t.oq.Wf)
    (hps : ∀ p ∈ ps, p.bytes.length ≤ ttE2eeChunk) :
    ∃ h, Did t (sendLoop C env type ps t).1 h [] [] ∧
      (h.flatMap Piece.bytes ++ kept ((sendLoop C env type ps t).2.flatMap Piece.bytes) =
        ps.flatMap Piece.bytes ↔ LiveFits C env type ps t) := by
  induction ps generalizing t with
  | nil => exact ⟨[], Did.refl hwf, iff_of_true rfl trivial⟩
  | cons p ps ih =>
    have hp := hps p List.mem_cons_self
    rw [LiveFits]
    obtain ⟨hsent, d⟩ | ⟨hfail, hn, d⟩ | ⟨hfail, hn, d⟩ := sendStep_active C env ha hwf
      type hp
    · have hne : (sendStep C env type t p).2 ≠ .failed := by
        rw [hsent]
        decide
      obtain ⟨h, d', hiff⟩ := ih (d.active.trans ha) d.wf fun q hq => hps q (List.mem_cons_of_mem _ hq)
      rw [sendLoop_next hne, if_neg hne, ← hiff]
      refine ⟨p :: h, d.trans d', ?_⟩
      rw [List.flatMap_cons, List.flatMap_cons, List.append_assoc, List.append_cancel_left_eq]
    · rw [sendLoop_failed hfail, if_pos hfail]
      refine ⟨[], d, ?_⟩
      rw [List.flatMap_nil, List.nil_append, kept_eq_self_iff]
      exact ⟨fun h => Or.inl ⟨hn, h⟩, fun h => h.elim And.right fun h => absurd h.1 hn⟩
    · rw [sendLoop_failed hfail, if_pos hfail]
      refine ⟨[p], d, ?_⟩
      have hcancel : [p].flatMap Piece.bytes ++ kept ((p :: ps).flatMap Piece.bytes) =
          (p :: ps).flatMap Piece.bytes ↔
          kept ((p :: ps).flatMap Piece.bytes) = ps.flatMap Piece.bytes := by
        rw [List.flatMap_singleton]
        exact List.append_right_inj p.bytes
      rw [hcancel]
      exact ⟨fun h => Or.inr ⟨hn, h⟩, fun h => h.elim (fun h => absurd hn h.1) And.right⟩

theorem sendStep_inactive (C : Crypto) (env : ChatEnv) (ha : t.e2ee.active = false) (hwf : t.oq.Wf) (type : ToxMessageType)
    {p : Piece} (hp : p.bytes.length ≤ ttE2eeChunk) (hne : p.bytes ≠ []) :
    (t.e2ee.pending.length < ttSessionPendingMax ∧ (sendStep C env type t p).2 = .stashed ∧
        Did t (sendStep C env type t p).1 [] [p] []) ∨
      (ttSessionPendingMax ≤ t.e2ee.pending.length ∧ (sendStep C env type t p).2 = .failed ∧
        Did t (sendStep C env type t p).1 [] [] []) := by
  have hsend := sendChunk_inactive C env ha hwf type hp hne
  unfold sendStep
  cases hr : sendChunk C env t type p with
  | mk t' ans =>
    rw [hr] at hsend
    dsimp only at hsend
    obtain ⟨hfree, rfl, d⟩ | ⟨hfull, rfl, d⟩ := hsend
    · exact Or.inl ⟨hfree, rfl, d⟩
    · exact Or.inr ⟨hfull, rfl, d⟩

theorem sendLoop_inactive (C : Crypto) (env : ChatEnv) (type : ToxMessageType) {ps : List Piece} (ha : t.e2ee.active = false) (hwf : t.oq.Wf)
    (hps : ∀ p ∈ ps, p.bytes ≠ [] ∧ p.bytes.length ≤ ttE2eeChunk) :
    Did t (sendLoop C env type ps t).1 []
        (ps.take (ttSessionPendingMax - t.e2ee.pending.length)) [] ∧
      (sendLoop C env type ps t).2 = ps.drop (ttSessionPendingMax - t.e2ee.pending.length) := by
  induction ps generalizing t with
  | nil =>
    rw [List.take_nil, List.drop_nil]
    exact ⟨Did.refl hwf, rfl⟩
  | cons p ps ih =>
    obtain ⟨hne, hp⟩ := hps p List.mem_cons_self
    obtain ⟨hfree, hstashed, d⟩ | ⟨hfull, hfail, d⟩ :=
      sendStep_inactive C env ha hwf type hp hne
    · have hnext : (sendStep C env type t p).2 ≠ .failed := by
        rw [hstashed]
        decide
      have hroom : ttSessionPendingMax - t.e2ee.pending.length =
          ttSessionPendingMax - (sendStep C env type t p).1.e2ee.pending.length + 1 := by
        rw [d.pending, List.length_append, List.length_map, List.length_singleton]
        omega
      obtain ⟨d', hrest⟩ := ih (d.active.trans ha) d.wf fun q hq => hps q (List.mem_cons_of_mem _ hq)
      rw [sendLoop_next hnext, hroom, List.take_succ_cons, List.drop_succ_cons]
      exact ⟨d.trans d', hrest⟩
    · rw [sendLoop_failed hfail, Nat.sub_eq_zero_of_le hfull]
      exact ⟨d, rfl⟩

theorem chunksFrom_drop {n : ℕ} (start : ℕ) {rest : Bytes} (h : rest.length ≤ n) (k : ℕ) :
    ((chunksFrom n start rest).drop k).flatMap Piece.bytes = rest.drop (ttE2eeChunk * k) := by
  induction k generalizing n start rest with
  | zero =>
    rw [List.drop_zero, Nat.mul_zero, List.drop_zero]
    exact chunksFrom_bytes start h
  | succ k ih =>
    by_cases hr : rest = []
    · subst hr
      cases n <;> simp [chunksFrom]
    · have hpos := List.length_pos_iff.mpr hr
      obtain ⟨m, rfl⟩ : ∃ m, n = m + 1 := ⟨n - 1, by omega⟩
      have hm : (rest.drop ttE2eeChunk).length ≤ m := by
        rw [List.length_drop]
        have : 0 < ttE2eeChunk := by decide
        omega
      rw [chunksFrom, if_neg hr, List.drop_succ_cons, ih _ hm, List.drop_drop, Nat.mul_succ,
        Nat.add_comm]

theorem sendText_held {tagged : Bool} {Q : Prop} (type : ToxMessageType) (text : Bytes) (t : Chat) :
    Held C env tagged Q t (sendText C env type text t) := by
  have hloop (ps : List Piece) (t : Chat) : Held C env tagged Q t (sendLoop C env type ps t).1 := by
    induction ps generalizing t with
    | nil => exact .refl t
    | cons p ps ih =>
      have hs : Held C env tagged Q t (sendStep C env type t p).1 := by
        have hc : Held C env tagged Q t (sendChunk C env t type p).1 := sendChunk_held C env t type p
        rw [sendStep]
        split
        · rename_i t' hr
          rw [hr] at hc
          exact hc.trans (.emit trivial fun _ => trivial)
        · exact hc
      rw [sendLoop]
      cases hr : sendStep C env type t p with
      | mk t' ans =>
        rw [hr] at hs
        cases ans with
        | failed => exact hs
        | sent => exact hs.trans (ih t')
        | stashed => exact hs.trans (ih t')
  rw [sendText]
  cases (sendLoop C env type (textChunks ⟨0, text⟩) t).2 with
  | nil => exact hloop _ t
  | cons p ps => exact (hloop _ t).trans (requeue_held _ _)

/-- What is left of the text where the loop stops fits into the queue: without a session, what the
stash has no room for. -/
def SubmitFits (C : Crypto) (env : ChatEnv) (type : ToxMessageType) (t : Chat) (text : Bytes) : Prop :=
  if t.e2ee.active then LiveFits C env type (textChunks ⟨0, text⟩) t
  else OneSlot (text.drop (ttE2eeChunk * (ttSessionPendingMax - t.e2ee.pending.length)))

theorem sendText_keeps_iff (type : ToxMessageType) (hwf : t.oq.Wf)
    (hroom : t.oq.messages.length < ttOqMaxPerFriend) (text : Bytes) :
    Keeps C env t (sendText C env type text t) text ↔ SubmitFits C env type t text := by
  have hbytes : (textChunks ⟨0, text⟩).flatMap Piece.bytes = text := textChunks_bytes ⟨0, text⟩
  have hchunk := fun p (hp : p ∈ textChunks ⟨0, text⟩) => textChunks_chunk hp
  have hheld : Held C env true False t (sendText C env type text t) := sendText_held type text t
  unfold SubmitFits
  rw [sendText] at hheld ⊢
  cases ha : t.e2ee.active with
  | true =>
    obtain ⟨h, d, hiff⟩ := sendLoop_active C env type ha hwf
      fun p hp => (hchunk p hp).2
    rw [keeps_requeueTail_iff hheld d hroom, List.flatMap_nil, List.append_nil, if_pos rfl, ← hiff, hbytes]
  | false =>
    obtain ⟨d, hrest⟩ := sendLoop_inactive C env type ha hwf hchunk
    have hdrop := chunksFrom_drop 0 (Nat.le_refl text.length)
      (ttSessionPendingMax - t.e2ee.pending.length)
    have hsplit := congrArg (List.flatMap Piece.bytes) (List.take_append_drop
      (ttSessionPendingMax - t.e2ee.pending.length) (textChunks ⟨0, text⟩))
    rw [List.flatMap_append, hbytes] at hsplit
    rw [keeps_requeueTail_iff hheld d hroom, hrest, List.flatMap_nil, List.nil_append,
      if_neg Bool.false_ne_true, ← hdrop, ← kept_eq_self_iff]
    constructor
    · intro h
      exact List.append_cancel_left (h.trans hsplit.symm)
    · intro h
      exact (congrArg _ h).trans hsplit

/-- A text submitted on the encrypted path goes whole to toxcore, the stash and the queue exactly
when what the loop leaves of it fits into one slot of the queue. -/
theorem handleCmdSendMessage_keeps_iff (hp : OnSession env t) (hwf : t.oq.Wf)
    (hroom : t.oq.messages.length < ttOqMaxPerFriend) (text : Bytes) :
    Keeps C env t (handleCmdSendMessage C env type text t) text ↔ SubmitFits C env type t text := by
  obtain ⟨hm, hk, hf⟩ := hp
  rw [handleCmdSendMessage, if_pos ⟨hm, hk⟩, if_neg (by rw [hf]; exact Bool.false_ne_true)]
  exact sendText_keeps_iff type hwf hroom text

namespace Instance

def waitingChat : Chat where
  e2ee := { TTSession.zero with pending := [[1], [2], [3], [4]] }
  required := false
  fallback := false
  warned := false
  handshakeAt := 990
  oq := TTOqFriend.empty
  oqFlushing := false
  clock := 0
  log := []

def longText : Bytes := List.replicate 1373 97

theorem longText_cut :
    ¬ Keeps crypto chatEnv waitingChat (handleCmdSendMessage crypto chatEnv .normal longText waitingChat) longText := by
  have hrun : ((waitingChat.since (handleCmdSendMessage crypto chatEnv .normal longText
      waitingChat)).filterMap handedPiece).length = 0 ∧
      (handleCmdSendMessage crypto chatEnv .normal longText waitingChat).e2ee.pending =
        waitingChat.e2ee.pending ∧
      (handleCmdSendMessage crypto chatEnv .normal longText waitingChat).oq.messages =
        [List.replicate 1372 97] := by decide +kernel
  obtain ⟨hhanded, hpend, hqueue⟩ := hrun
  rintro ⟨-, stashed, appended, hs, ha, htext⟩
  rw [hpend] at hs
  have hstashed : stashed = [] := List.self_eq_append_right.mp hs
  have hempty : waitingChat.oq.messages = [] := rfl
  rw [hqueue, hempty, List.nil_append] at ha
  rw [List.length_eq_zero_iff.mp hhanded, hstashed, ← ha] at htext
  have hlen := congrArg List.length htext
  simp only [List.flatMap_nil, List.flatten_nil, List.nil_append, List.flatten_singleton, longText,
    List.length_replicate] at hlen
  omega

theorem handleCmdSendMessage_keeps_iff_liveChat :
    Keeps crypto chatEnv { liveChat with oq := TTOqFriend.empty }
      (handleCmdSendMessage crypto chatEnv .normal [104, 105] { liveChat with oq := TTOqFriend.empty })
      [104, 105] := by
  apply (handleCmdSendMessage_keeps_iff ?_ TTOqFriend.empty_wf (by decide) _).mpr
  · have hchunks : textChunks ⟨0, [104, 105]⟩ = [⟨0, [104, 105]⟩] := by decide +kernel
    have hsent : (sendStep crypto chatEnv .normal { liveChat with oq := TTOqFriend.empty } ⟨0, [104, 105]⟩).2 ≠
        .failed := by decide +kernel
    rw [SubmitFits, if_pos (by decide +kernel), hchunks, LiveFits, if_neg hsent]
    trivial
  · exact ⟨by decide +kernel, by decide +kernel, by decide +kernel⟩

end Instance

end TkTox
