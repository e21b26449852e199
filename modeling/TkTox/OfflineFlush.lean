import TkTox.ChatFrames
import TkTox.Instance
import TkTox.StashFlush

/-!
What becomes of the queued texts when `offline_flush_friend` empties a friend's queue: every
byte is to be handed to toxcore, stashed in the session or back in the queue, once and in order.
-/

namespace TkTox

open ChatEffect Tiling

variable {C : Crypto} {env : ChatEnv} {t t' t'' : Chat} {h s q h' s' q' : List Piece} {src : Bytes}

def PlainKeeps (env : ChatEnv) (c m : ℕ) : Prop :=
  ∀ k < m, (∀ j < k, ∃ mid, env.message (c + j) = .ok mid) → env.message (c + k) ≠ .other

theorem plainKeeps_ok {c m mid : ℕ} (h : env.message c = .ok mid) :
    PlainKeeps env c (m + 1) ↔ PlainKeeps env (c + 1) m := by
  have hshift : ∀ j, c + 1 + j = c + (j + 1) := fun j => by omega
  constructor
  · intro hk k hkm hj
    rw [hshift]
    refine hk (k + 1) (by omega) fun j hjk => ?_
    cases j with
    | zero => exact ⟨mid, h⟩
    | succ j =>
      rw [← hshift]
      exact hj j (by omega)
  · intro hk k hkm hj
    cases k with
    | zero =>
      rw [Nat.add_zero, h]
      simp
    | succ k =>
      rw [← hshift]
      refine hk k (by omega) fun j hjk => ?_
      rw [hshift]
      exact hj (j + 1) (by omega)

theorem plainKeeps_other {c m : ℕ} (h : env.message c = .other) : ¬ PlainKeeps env c (m + 1) :=
  fun hk => hk 0 (Nat.succ_pos m) (fun _ hj => absurd hj (Nat.not_lt_zero _)) h

theorem plainKeeps_notConnected {c m : ℕ} (h : env.message c = .notConnected) : PlainKeeps env c m := by
  intro k _ hj
  cases k with
  | zero =>
    rw [Nat.add_zero, h]
    decide
  | succ k =>
    obtain ⟨mid, hm⟩ := hj 0 (Nat.succ_pos k)
    rw [Nat.add_zero, h] at hm
    cases hm

theorem flushPlain_spec (env : ChatEnv) {qs : List Piece} {a n : ℕ} (hwf : t.oq.Wf) (hc : Covers a qs n)
    (hroom : t.oq.messages.length + qs.length ≤ ttOqMaxPerFriend)
    (hqs : ∀ q ∈ qs, q.Text ∧ q.Of src) :
    ∃ h k, Did t (flushPlain env qs t) h [] k ∧ Sound src a (h ++ k) ∧
      (Covers a (h ++ k) n ↔ PlainKeeps env t.clock qs.length) := by
  induction qs generalizing t a with
  | nil =>
    refine ⟨[], [], Did.refl hwf, fun p hp => (by simp at hp), ?_⟩
    simpa [PlainKeeps] using hc
  | cons q qs ih =>
    obtain ⟨rfl, hcq⟩ := hc
    have hq := hqs q (List.mem_cons_self ..)
    have hlt := Piece.start_lt_stop hq.1.ne
    have hall : Sound src q.start (q :: qs) := sound_of_covers (a := q.start) (b := n) ⟨rfl, hcq⟩
      (fun r hr => (hqs r hr).1.ne) fun r hr => (hqs r hr).2
    have hrest := fun r hr => hqs r (List.mem_cons_of_mem _ hr)
    rw [List.length_cons] at hroom ⊢
    have hroom' : t.oq.messages.length + qs.length ≤ ttOqMaxPerFriend := by omega
    unfold flushPlain
    cases hm : env.message t.clock with
    | ok mid =>
      have d : Did t ((t.tick.emit (.plain .normal q)).emit (.event (.messageSent mid))) [q] [] [] :=
        Did.of_log hwf rfl rfl rfl (l := [.plain .normal q, .event (.messageSent mid)]) (by simp)
          rfl rfl rfl
      obtain ⟨h, k, d', hs, hk⟩ := ih (t := (t.tick.emit (.plain .normal q)).emit
        (.event (.messageSent mid))) hwf hcq hroom' hrest
      refine ⟨q :: h, k, d.trans d', ?_, ?_⟩
      · have hone : Sound src q.start [q] := hall.sublist (by simp)
        exact hone.append (hs.mono hlt.le)
      · rw [plainKeeps_ok hm, ← show _ = t.clock + 1 from rfl]
        constructor
        · intro hcov
          exact hk.mp hcov.2
        · intro hkeep
          exact ⟨rfl, hk.mpr hkeep⟩
    | notConnected =>
      have d := (did_tick hwf).trans (did_requeueAll (t := t.tick) (q :: qs) hwf
        (by simpa using hroom) fun r hr => (hqs r hr).1)
      refine ⟨[], q :: qs, d, hall, ?_⟩
      constructor
      · intro _
        exact plainKeeps_notConnected hm
      · intro _
        exact ⟨rfl, hcq⟩
    | other =>
      -- the text is lost: what is left starts behind it
      obtain ⟨h, k, d', hs, -⟩ := ih (t := t.tick) hwf hcq hroom' hrest
      refine ⟨h, k, (did_tick hwf).trans d', hs.mono hlt.le, ?_⟩
      constructor
      · intro hcov
        cases hl : h ++ k with
        | nil =>
          rw [hl] at hcov
          have hle : q.stop ≤ n := Tiles.le (fun r hr =>
            (Piece.start_lt_stop (hrest r hr).1.ne).le) hcq
          have : q.start = n := hcov
          omega
        | cons x xs =>
          rw [hl] at hcov hs
          have h1 := hcov.1
          have h2 := (hs x (List.mem_cons_self ..)).1
          omega
      · intro hkeep
        exact absurd hkeep (plainKeeps_other hm)

/-- Every byte that was queued went to toxcore, to the stash or to the queue, once and in order; what
went to toxcore in a frame is the text the session sealed in it. -/
structure Accounted (C : Crypto) (env : ChatEnv) (t t' : Chat) : Prop where
  sealed : ∀ e ∈ t.since t', e.Sealed C env.ident true t.e2ee
  stash : t'.e2ee.pending = t.e2ee.pending ++ ((t.since t').filterMap stashedPiece).map Piece.bytes
  queue : t'.oq.messages = ((t.since t').filterMap queuedPiece).map Piece.bytes
  cut : ∀ p ∈ (t.since t').filterMap handedPiece ++ (t.since t').filterMap stashedPiece ++
    (t.since t').filterMap queuedPiece, p.Of t.oq.messages.flatten
  once : ((t.since t').filterMap handedPiece ++ (t.since t').filterMap stashedPiece ++
    (t.since t').filterMap queuedPiece).flatMap Piece.places = List.range t.oq.messages.flatten.length

inductive FlushPath
  | blocked
  | plain
  | encrypted
deriving DecidableEq, Repr

def flushPath (env : ChatEnv) (t : Chat) : FlushPath :=
  if env.mode ∧ env.ident.peerPk ≠ none then
    if e2eeFallbackDue env t then if t.required then .blocked else .plain else .encrypted
  else .plain

/-- The flush is not blocked, and no failure on its path loses or repeats bytes. -/
def FlushKeeps (C : Crypto) (env : ChatEnv) (t : Chat) : Prop :=
  t.oq.messages = [] ∨
    match flushPath env t with
    | .blocked => False
    | .plain => PlainKeeps env t.clock t.oq.messages.length
    | .encrypted =>
      if t.e2ee.active then TextsKeep C env (textPieces 0 t.oq.messages) t.emptied
      else StashKeeps (ttSessionPendingMax - t.e2ee.pending.length) (textPieces 0 t.oq.messages)

theorem Held.since_sealed {tagged : Bool} {Q : Prop} (h : Held C env tagged Q t t') :
    ∀ e ∈ t.since t', e.Sealed C env.ident tagged t.e2ee := by
  obtain ⟨l, hl, hs⟩ := h.log
  have hsince : t.since t' = l := by
    rw [Chat.since, hl]
    exact List.drop_left
  rw [hsince]
  exact fun e he => (hs e he).1

theorem accounted_iff {u : Chat} (hheld : Held C env true False t t') (hl : u.log = t.log) (hp : u.e2ee.pending = t.e2ee.pending)
    (ho : u.oq.messages = []) (d : Did u t' h s k)
    (hs : Sound t.oq.messages.flatten 0 (h ++ s ++ k)) :
    Accounted C env t t' ↔ Covers 0 (h ++ s ++ k) t.oq.messages.flatten.length := by
  obtain ⟨l, hlog, hh, hst, hqu⟩ := d.log
  have hsince : t.since t' = l := by
    rw [Chat.since, hlog, hl]
    simp
  have hplaces : (fun p : Piece => p.places) = places Piece.start Piece.stop := by
    funext p
    simp [Piece.places, places, Piece.stop]
  have hcov := tiles_iff_places Piece.start Piece.stop (h ++ s ++ k) (a := 0)
    (n := t.oq.messages.flatten.length) fun p hp => Piece.start_lt_stop (hs p hp).2.1
  rw [Nat.zero_add, ← hplaces, ← List.range_eq_range'] at hcov
  refine Iff.trans ?_ hcov.symm
  constructor
  · intro ha
    have := ha.once
    rwa [hsince, hh, hst, hqu] at this
  · intro ho'
    refine ⟨hheld.since_sealed, ?_, ?_, ?_, ?_⟩
    · rw [hsince, hst, d.pending, hp]
    · rw [hsince, hqu, d.queue, ho, List.nil_append]
    · rw [hsince, hh, hst, hqu]
      exact fun p hp => (hs p hp).2.2
    · rw [hsince, hh, hst, hqu]
      exact ho'

theorem did_warn (hwf : t.oq.Wf) (msg : String) : Did t (e2eeWarn t msg) [] [] [] := by
  unfold e2eeWarn
  split_ifs
  · exact Did.refl hwf
  · exact Did.of_log hwf rfl rfl rfl (l := [.event (.e2eeWarn msg)]) rfl rfl rfl rfl

theorem did_fallback (hwf : t.oq.Wf) {msg : String} :
    Did t (e2eeWarn { t with fallback := true } msg) [] [] [] ∧
      (e2eeWarn { t with fallback := true } msg).oq = t.oq ∧
      (e2eeWarn { t with fallback := true } msg).clock = t.clock := by
  unfold e2eeWarn
  split_ifs
  · exact ⟨Did.of_log hwf rfl rfl rfl (l := []) (by simp) rfl rfl rfl, rfl, rfl⟩
  · exact ⟨Did.of_log hwf rfl rfl rfl (l := [.event (.e2eeWarn msg)]) rfl rfl rfl rfl, rfl, rfl⟩

theorem offlineFlushFriend_did (C : Crypto) (env : ChatEnv) (hq : t.oq.Wf) : ∃ h s k,
    Did t.emptied (offlineFlushFriend C env t) h s k ∧ Sound t.oq.messages.flatten 0 (h ++ s ++ k) ∧
      (Covers 0 (h ++ s ++ k) t.oq.messages.flatten.length ↔ FlushKeeps C env t) := by
  obtain ⟨hwf, hnil⟩ := hq.takeAll
  have hwf' : t.emptied.oq.Wf := hwf
  have hcov : Covers 0 (textPieces 0 t.oq.messages) t.oq.messages.flatten.length := by
    have := textPieces_covers 0 t.oq.messages
    rwa [Nat.zero_add] at this
  have hroom : t.emptied.oq.messages.length + (textPieces 0 t.oq.messages).length ≤ ttOqMaxPerFriend := by
    have hempty : t.emptied.oq.messages = [] := hnil
    rw [hempty, textPieces_length, hq.messages_length, List.length_nil, Nat.zero_add]
    exact hq.count
  have htexts : ∀ q ∈ textPieces 0 t.oq.messages, q.Text ∧ q.Of t.oq.messages.flatten := by
    intro q hm
    refine ⟨textPieces_text 0 hq.texts q hm, ?_⟩
    refine Covers.of (x := []) (y := []) (b := t.oq.messages.flatten.length) ?_ hcov q hm
    rw [List.flatMap_def, textPieces_bytes]
    simp
  have hevent : ∀ {t' : Chat} {h s k} (ev : ChatEvent), Did t.emptied t' h s k →
      Did t.emptied (t'.emit (.event ev)) h s k := fun ev d => by
    have := d.trans (did_event d.wf ev)
    simpa using this
  unfold offlineFlushFriend FlushKeeps flushPath
  rw [TTOqFriend.takeAll_texts]
  by_cases hm : t.oq.messages = []
  · rw [if_pos hm, hm]
    exact ⟨[], [], [], Did.refl hwf', fun p hp => (by simp at hp), by simp⟩
  dsimp only
  rw [if_neg hm]
  simp only [hm, false_or]
  by_cases hmode : env.mode = true ∧ env.ident.peerPk ≠ none
  · rw [if_pos hmode, if_pos hmode]
    by_cases hdue : e2eeFallbackDue env t = true
    · have hdue' : e2eeFallbackDue env t.emptied = true := hdue
      rw [if_pos hdue, if_pos hdue']
      by_cases hreq : t.required = true
      · have hreq' : t.emptied.required = true := hreq
        rw [if_pos hreq, if_pos hreq']
        refine ⟨[], [], [], did_warn hwf' queueBlockedWarn, fun p hp => (by simp at hp), ?_⟩
        have hpos : 0 < t.oq.messages.flatten.length := by
          obtain ⟨b, bs, hb⟩ := List.exists_cons_of_ne_nil hm
          have hne := (hq.texts b (by rw [hb]; simp)).1
          rw [hb, List.flatten_cons, List.length_append]
          have := List.length_pos_iff.mpr hne
          omega
        constructor
        · intro h
          have : 0 = t.oq.messages.flatten.length := h
          omega
        · intro h
          cases h
      · have hreq' : ¬ t.emptied.required = true := hreq
        rw [if_neg hreq, if_neg hreq']
        obtain ⟨d, hoq, hclock⟩ := did_fallback hwf'
        obtain ⟨h, k, df, hs, hk⟩ := flushPlain_spec env d.wf hcov (by rw [hoq]; exact hroom)
          htexts
        rw [hclock, textPieces_length] at hk
        exact ⟨h, [], k, hevent _ (d.trans df), by simpa using hs, by rw [List.append_nil]; exact hk⟩
    · have hdue' : ¬ e2eeFallbackDue env t.emptied = true := hdue
      rw [if_neg hdue, if_neg hdue']
      by_cases ha : t.e2ee.active = true
      · simp only [if_pos ha]
        obtain ⟨h, k, d, hs, hk⟩ := flushTexts_active C env (t := t.emptied) ha hwf'
          hcov hroom htexts
        exact ⟨h, [], k, hevent _ d, by simpa using hs, by rw [List.append_nil]; exact hk⟩
      · simp only [if_neg ha]
        rw [Bool.not_eq_true] at ha
        obtain ⟨s, k, d, hs, -, hk⟩ := flushTexts_inactive C env (t := t.emptied) ha
          hwf' hcov hroom htexts
        exact ⟨[], s, k, hevent _ d, hs, hk⟩
  · rw [if_neg hmode, if_neg hmode]
    obtain ⟨h, k, d, hs, hk⟩ := flushPlain_spec env (t := t.emptied) hwf' hcov hroom htexts
    rw [textPieces_length] at hk
    exact ⟨h, [], k, hevent _ d, by simpa using hs, by rw [List.append_nil]; exact hk⟩

/-- The flush accounts for every queued byte exactly when it is not blocked and no failure hits the
middle of a text, drops a text or leaves the end of one behind a later text. -/
theorem offlineFlushFriend_accounted_iff (C : Crypto) (env : ChatEnv) (t : Chat) (hq : t.oq.Wf) :
    Accounted C env t (offlineFlushFriend C env t) ↔ FlushKeeps C env t := by
  obtain ⟨h, s, k, d, hs, hk⟩ := offlineFlushFriend_did C env hq
  rw [← hk]
  exact accounted_iff (u := t.emptied) (offlineFlushFriend_held t False.elim) rfl rfl hq.takeAll.2 d hs

namespace Instance

def chatEnv : ChatEnv where
  mode := true
  ident := aliceEnv
  draws n k := Instance.draws (UInt8.ofNat (n + k))
  now _ := 1000
  message _ := .ok 1
  rounds := 8

def blockedChat : Chat where
  e2ee := .zero
  required := true
  fallback := false
  warned := false
  handshakeAt := 900
  oq := TTOqFriend.empty.put [104, 105]
  oqFlushing := false
  clock := 0
  log := []

theorem blockedChat_wf : blockedChat.oq.Wf := TTOqFriend.put_wf TTOqFriend.empty_wf [104, 105]

theorem blockedChat_lost :
    (offlineFlushFriend crypto chatEnv blockedChat).oq.messages = [] ∧
      ¬ Accounted crypto chatEnv blockedChat (offlineFlushFriend crypto chatEnv blockedChat) := by
  have hlog : blockedChat.since (offlineFlushFriend crypto chatEnv blockedChat) =
      [.event (.e2eeWarn queueBlockedWarn)] := by decide +kernel
  refine ⟨by decide +kernel, fun h => ?_⟩
  have ho := h.once
  rw [hlog] at ho
  have hl : blockedChat.oq.messages.flatten.length = 2 := by decide +kernel
  rw [hl] at ho
  exact absurd ho (by decide)

def liveChat : Chat := { blockedChat with e2ee := alice, handshakeAt := 0 }

theorem offlineFlushFriend_accounted_iff_liveChat : liveChat.oq.Wf ∧
    ((liveChat.since (offlineFlushFriend crypto chatEnv liveChat)).filterMap handedPiece).length = 1 ∧
    (Accounted crypto chatEnv liveChat (offlineFlushFriend crypto chatEnv liveChat) ↔
      FlushKeeps crypto chatEnv liveChat) :=
  ⟨blockedChat_wf, by decide +kernel,
    offlineFlushFriend_accounted_iff crypto chatEnv liveChat blockedChat_wf⟩

end Instance

end TkTox
