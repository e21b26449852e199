import TkTox.Scan
import TkTox.SessionStore

/-!
What a malformed session sidecar leaves in the slots. The readers of `session_store.c` write
straight into the session of the friend a record names, field by field, so the model here keeps
every field by itself, the counts of the arrays included. A number is its big-endian bytes.
-/

namespace TkTox

inductive RatchetField
  | chain | seq | root | sinceFold | nSkipped
  | skippedSeq (i : ℕ)
  | skippedKey (i : ℕ)
  deriving DecidableEq

inductive SlotField
  | active | iAmInitiator | root
  | send (f : RatchetField)
  | recv (f : RatchetField)
  | ephSk | ephPk | haveKem | kemPk | kemSk | peerHave | peerKemPk | peerEphPk
  | rekeyDue | awaitingPeer | published | postFoldPublish | publishBack
  | sentCount | sentHead
  | sentGen (i : ℕ)
  | sentSeq (i : ℕ)
  | sentLen (i : ℕ)
  | sentData (i : ℕ)
  | recvAcked | ackDue | resendReqPending | resendReqGen | resendReqFrom
  | resendRepPending | resendRepGen | resendRepFrom | resendRepPos
  deriving DecidableEq

open Scan

def skippedScan (r : RatchetField → SlotField) : ℕ → ℕ → Scan SlotField Unit
  | 0, _ => pure ()
  | n + 1, i => do
    need (4 + ttKey32)
    blob (r (.skippedSeq i)) 4
    blob (r (.skippedKey i)) ttKey32
    skippedScan r n (i + 1)

def ratchetScan (r : RatchetField → SlotField) : Scan SlotField Unit := do
  need (ttKey32 + 4 + ttKey32 + 2 + 2)
  blob (r .chain) ttKey32
  blob (r .seq) 4
  blob (r .root) ttKey32
  blob (r .sinceFold) 2
  -- stored before it is checked
  let n ← count (r .nSkipped)
  if n > ttSessionSkippedMax then fail
  else skippedScan r n 0

def rekeyScan : Scan SlotField Unit := do
  need (ttKey32 + ttKey32 + 1 + ttKemPk + ttKemSk + 1 + ttKemPk + ttKey32 + 5)
  blob .ephSk ttKey32
  blob .ephPk ttKey32
  flag .haveKem
  blob .kemPk ttKemPk
  blob .kemSk ttKemSk
  flag .peerHave
  blob .peerKemPk ttKemPk
  blob .peerEphPk ttKey32
  flag .rekeyDue
  flag .awaitingPeer
  flag .published
  flag .postFoldPublish
  flag .publishBack

def sentScan : ℕ → ℕ → Scan SlotField Unit
  | 0, _ => pure ()
  | n + 1, i => do
    need (4 + 4 + 2)
    blob (.sentGen i) 4
    blob (.sentSeq i) 4
    let len ← count (.sentLen i)
    if len > ttFrameDataMax then fail
    else do
      need len
      blob (.sentData i) len
      sentScan n (i + 1)

def relTailScan : Scan SlotField Unit := do
  need (4 + 1 + 1 + 4 + 4 + 1 + 4 + 4 + 2)
  blob .recvAcked 4
  flag .ackDue
  flag .resendReqPending
  blob .resendReqGen 4
  blob .resendReqFrom 4
  flag .resendRepPending
  blob .resendRepGen 4
  blob .resendRepFrom 4
  blob .resendRepPos 2

def relScan : Scan SlotField Unit := do
  need 2
  let n ← count .sentCount
  if n > ttSentMax then fail
  else do
    store .sentHead (u16be 0)
    sentScan n 0
    relTailScan

def sessionScan : Scan SlotField Unit := do
  need (1 + 1 + ttKey32)
  let _fn ← take 1
  flag .iAmInitiator
  blob .root ttKey32
  ratchetScan .send
  ratchetScan .recv
  rekeyScan
  relScan
  store .active [1]

def sesScan : ℕ → Bytes → List (Turn (Fin 256) SlotField) × Ended Unit
  | 0, p => ([], .ok () p)
  | _ + 1, [] => ([], .ok () [])
  | n + 1, x :: p =>
    let fn : Fin 256 := ⟨x.toNat, x.toNat_lt⟩
    match sessionScan (x :: p) with
    | (w, .ok _ rest) => (⟨fn, w, true⟩ :: (sesScan n rest).1, (sesScan n rest).2)
    | (w, .fail) => ([⟨fn, w, false⟩], .fail)
    | (w, .fault) => ([⟨fn, w, false⟩], .fault)

def sesTurns (pt : Bytes) : List (Turn (Fin 256) SlotField) × Ended Unit :=
  if pt.length < 6 ∨ pt.take 6 ≠ ttSesMagic then ([], .fail)
  else match pt.drop 6 with
  | [] => ([], .fail)
  | count :: p => sesScan count.toNat p

def sesLoadFields (e2ee : Slots (Fin 256) SlotField) (pt : Bytes) : Slots (Fin 256) SlotField :=
  replay e2ee (sesTurns pt).1

def Ended.of : Option Bytes → Ended Unit
  | some rest => .ok () rest
  | none => .fail

theorem readU16_take (p : Bytes) : readU16 (p.take 2) = readU16 p := by
  match p with
  | [] => rfl
  | [_] => rfl
  | _ :: _ :: _ => rfl

theorem skippedScan_snd (r : RatchetField → SlotField) (n i : ℕ) (p : Bytes) :
    (skippedScan r n i p).2 = Ended.of (skippedGet n p).2 := by
  induction n generalizing i p with
  | zero => rfl
  | succ n ih =>
    rw [skippedScan, skippedGet, need_bind_snd]
    split_ifs with h
    · rfl
    · rw [blob_bind_snd (by simp only [ttKey32] at h; omega),
        blob_bind_snd (by rw [List.length_drop]; simp only [ttKey32] at h ⊢; omega), ih]
      rfl

theorem ratchetScan_snd (f : RatchetField → SlotField) (p : Bytes) (r : TTRatchet) :
    (ratchetScan f p).2 = Ended.of (ratchetGet p r).2 := by
  rw [ratchetScan, ratchetGet, need_bind_snd]
  split_ifs with h
  · rfl
  · simp only [ttKey32] at h
    simp (disch := simp only [List.length_drop, ttKey32]; omega) only [blob_bind_snd, count_bind_snd]
    rw [readU16_take]
    simp only [getBlob, getU32, getU16, List.drop_drop, ttKey32]
    split_ifs with hn
    · rfl
    · rw [skippedScan_snd]

theorem rekeyScan_snd (p : Bytes) (k : TTRekey) :
    (rekeyScan p).2 = Ended.of (rekeyGet p k).2 := by
  rw [rekeyScan, rekeyGet, need_bind_snd]
  split_ifs with h
  · rfl
  · simp only [ttKey32, ttKemPk, ttKemSk] at h
    simp (disch := simp only [List.length_drop, ttKey32, ttKemPk, ttKemSk]; omega) only
      [blob_bind_snd, flag_bind_snd, flag_snd]
    rfl

theorem sentScan_snd (n i : ℕ) (p : Bytes) (m : Fin ttSentMax → TTSentMsg) :
    (sentScan n i p).2 = Ended.of (sentGet n i p m).2 := by
  induction n generalizing i p m with
  | zero => rfl
  | succ n ih =>
    rw [sentScan, sentGet, need_bind_snd, sentMsgGet]
    split_ifs with h
    · rfl
    · rw [blob_bind_snd (by omega), blob_bind_snd (by rw [List.length_drop]; omega),
        count_bind_snd (by rw [List.length_drop, List.length_drop]; omega), readU16_take]
      simp only [getU32, getU16, List.drop_drop]
      split_ifs with hlen hor hor
      · rfl
      · exact absurd (Or.inl hlen) hor
      · rw [need_bind_snd, if_pos (hor.resolve_left hlen)]
        rfl
      · have hfit := not_lt.mp fun hlt => hor (Or.inr hlt)
        rw [need_bind_snd, if_neg (not_lt.mpr hfit), blob_bind_snd hfit, List.drop_drop]
        exact ih (i + 1) _ _

theorem relTailScan_snd (p : Bytes) (r : TTReliable) :
    (relTailScan p).2 = Ended.of (relTailGet p r).2 := by
  rw [relTailScan, relTailGet, need_bind_snd]
  split_ifs with h
  · rfl
  · rw [blob_bind_snd (by omega)]
    simp (disch := simp only [List.length_drop]; omega) only
      [blob_bind_snd, flag_bind_snd, blob_snd]
    rfl

theorem relScan_snd (p : Bytes) (r : TTReliable) : (relScan p).2 = Ended.of (relGet p r).2 := by
  rw [relScan, relGet, need_bind_snd]
  split_ifs with h
  · rfl
  · rw [count_bind_snd (not_lt.mp h), readU16_take]
    simp only [getU16]
    by_cases hn : readU16 p > ttSentMax
    · simp only [hn, ↓reduceIte]
      rfl
    · simp only [hn, ↓reduceIte]
      rw [store_bind_snd]
      have hsent := sentScan_snd (readU16 p) 0 (p.drop 2) r.sent.m
      rcases hget : sentGet (readU16 p) 0 (p.drop 2) r.sent.m with ⟨m, _ | rest⟩
      · rw [hget] at hsent
        rw [bind_snd_fail hsent]
        rfl
      · rw [hget] at hsent
        rw [bind_snd hsent, relTailScan_snd]

theorem sessionScan_snd (p : Bytes) (s : TTSession) :
    (sessionScan p).2 = Ended.of (sessionGet p s).2 := by
  rw [sessionScan, sessionGet, need_bind_snd]
  split_ifs with h
  · rfl
  · simp only [ttKey32] at h
    rw [take_bind_snd (by omega), flag_bind_snd (by rw [List.length_drop]; omega),
      blob_bind_snd (by rw [List.length_drop, List.length_drop]; simp only [ttKey32]; omega)]
    simp only [getFlag, getBlob, ttKey32]
    have hsend := ratchetScan_snd .send (((p.drop 1).drop 1).drop 32) s.send
    rcases hget : ratchetGet (((p.drop 1).drop 1).drop 32) s.send with ⟨send, _ | p⟩
    · rw [hget] at hsend
      rw [bind_snd_fail hsend]
      rfl
    · rw [hget] at hsend
      rw [bind_snd hsend]
      have hrecv := ratchetScan_snd .recv p s.recv
      dsimp only
      rcases hget : ratchetGet p s.recv with ⟨recv, _ | p⟩
      · rw [hget] at hrecv
        rw [bind_snd_fail hrecv]
        rfl
      · rw [hget] at hrecv
        rw [bind_snd hrecv]
        have hrekey := rekeyScan_snd p s.rekey
        dsimp only
        rcases hget : rekeyGet p s.rekey with ⟨rekey, _ | p⟩
        · rw [hget] at hrekey
          rw [bind_snd_fail hrekey]
          rfl
        · rw [hget] at hrekey
          rw [bind_snd hrekey]
          have hrel := relScan_snd p s.rel
          dsimp only
          rcases hget : relGet p s.rel with ⟨rel, _ | p⟩
          · rw [hget] at hrel
            rw [bind_snd_fail hrel]
            rfl
          · rw [hget] at hrel
            rw [bind_snd hrel]
            rfl

theorem sesScan_safe (n : ℕ) (p : Bytes) : (sesScan n p).2 ≠ .fault := by
  induction n generalizing p with
  | zero => simp [sesScan]
  | succ n ih =>
    cases p with
    | nil => simp [sesScan]
    | cons x p =>
      have h := sessionScan_snd (x :: p) .zero
      rw [sesScan]
      match hr : sessionScan (x :: p) with
      | (w, .ok _ rest) => exact ih rest
      | (w, .fail) => simp
      | (w, .fault) =>
        rw [hr] at h
        cases hget : (sessionGet (x :: p) .zero).2 <;> rw [hget] at h <;> cases h

theorem sesTurns_safe (pt : Bytes) : (sesTurns pt).2 ≠ .fault := by
  rw [sesTurns]
  split_ifs
  · simp
  · cases pt.drop 6 with
    | nil => simp
    | cons count p => exact sesScan_safe count.toNat p

/-! ### What a record stores -/

def RatchetField.width : RatchetField → ℕ
  | .chain | .root | .skippedKey _ => ttKey32
  | .seq | .skippedSeq _ => 4
  | .sinceFold | .nSkipped => 2

def SlotField.width : SlotField → Option ℕ
  | .root | .ephSk | .ephPk | .peerEphPk => some ttKey32
  | .kemPk | .peerKemPk => some ttKemPk
  | .kemSk => some ttKemSk
  | .send f | .recv f => some f.width
  | .sentGen _ | .sentSeq _ | .recvAcked | .resendReqGen | .resendReqFrom | .resendRepGen
  | .resendRepFrom => some 4
  | .sentCount | .sentHead | .sentLen _ | .resendRepPos => some 2
  | .sentData _ => none
  | .active | .iAmInitiator | .haveKem | .peerHave | .rekeyDue | .awaitingPeer | .published
  | .postFoldPublish | .publishBack | .ackDue | .resendReqPending | .resendRepPending => some 1

def SlotField.countMax : SlotField → Option ℕ
  | .send .nSkipped | .recv .nSkipped => some ttSessionSkippedMax
  | .sentCount => some ttSentMax
  | _ => none

def CountOk (f : SlotField) (v : Bytes) : Prop := ∀ m ∈ f.countMax, readU16 v ≤ m

def SlotField.Holds (f : SlotField) (v : Bytes) : Prop :=
  (∀ n ∈ f.width, v.length = n) ∧ CountOk f v

theorem countOk_of_none {f : SlotField} (h : f.countMax = none) (v : Bytes) : CountOk f v := by
  intro m hm
  rw [h] at hm
  cases hm

theorem only_blob_free {f : SlotField} (h : f.countMax = none) (n : ℕ) :
    Only CountOk (blob f n) := only_blob (countOk_of_none h) n

theorem only_flag_free {f : SlotField} (h : f.countMax = none) : Only CountOk (flag f) :=
  only_flag (countOk_of_none h)

theorem only_need {n : ℕ} : Only CountOk (need n) := only_silent fun _ => rfl

theorem only_take {n : ℕ} : Only CountOk (take n) := only_silent fun _ => rfl

theorem only_pure : Only CountOk (pure () : Scan SlotField Unit) := only_silent fun _ => rfl

theorem skippedScan_only (r : RatchetField → SlotField) (hr : ∀ f, f ≠ .nSkipped → (r f).countMax = none)
    (n i : ℕ) : Only CountOk (skippedScan r n i) := by
  induction n generalizing i with
  | zero => exact only_pure
  | succ n ih =>
    apply only_need.bind
    intro _
    apply (only_blob_free (hr _ (by simp)) _).bind
    intro _
    apply (only_blob_free (hr _ (by simp)) _).bind
    intro _
    exact ih (i + 1)

theorem ratchetScan_only (r : RatchetField → SlotField)
    (hr : ∀ f, f ≠ .nSkipped → (r f).countMax = none)
    (hn : (r .nSkipped).countMax = some ttSessionSkippedMax) : Only CountOk (ratchetScan r) := by
  apply only_need.bind
  intro _
  iterate 4
    apply (only_blob_free (hr _ (by simp)) _).bind
    intro _
  apply only_checked
  · intro v hv m hm
    rw [hn] at hm
    cases hm
    exact hv
  · intro n
    exact skippedScan_only r hr n 0

theorem rekeyScan_only : Only CountOk rekeyScan := by
  apply only_need.bind
  intro _
  iterate 2
    apply (only_blob_free rfl _).bind
    intro _
  apply (only_flag_free rfl).bind
  intro _
  iterate 2
    apply (only_blob_free rfl _).bind
    intro _
  apply (only_flag_free rfl).bind
  intro _
  iterate 2
    apply (only_blob_free rfl _).bind
    intro _
  iterate 4
    apply (only_flag_free rfl).bind
    intro _
  exact only_flag_free rfl

theorem sentScan_only (n i : ℕ) : Only CountOk (sentScan n i) := by
  induction n generalizing i with
  | zero => exact only_pure
  | succ n ih =>
    apply only_need.bind
    intro _
    iterate 2
      apply (only_blob_free rfl _).bind
      intro _
    apply only_checked fun v _ => countOk_of_none rfl v
    intro len
    apply only_need.bind
    intro _
    apply (only_blob_free rfl _).bind
    intro _
    exact ih (i + 1)

theorem relTailScan_only : Only CountOk relTailScan := by
  apply only_need.bind
  intro _
  apply (only_blob_free rfl _).bind
  intro _
  iterate 2
    apply (only_flag_free rfl).bind
    intro _
  iterate 2
    apply (only_blob_free rfl _).bind
    intro _
  apply (only_flag_free rfl).bind
  intro _
  iterate 2
    apply (only_blob_free rfl _).bind
    intro _
  exact only_blob_free rfl _

theorem relScan_only : Only CountOk relScan := by
  apply only_need.bind
  intro _
  apply only_checked
  · intro v hv m hm
    cases hm
    exact hv
  · intro n
    apply (only_store (countOk_of_none rfl _)).bind
    intro _
    apply (sentScan_only n 0).bind
    intro _
    exact relTailScan_only

theorem sessionScan_only : Only CountOk sessionScan := by
  apply only_need.bind
  intro _
  apply only_take.bind
  intro _
  apply (only_flag_free rfl).bind
  intro _
  apply (only_blob_free rfl _).bind
  intro _
  apply (ratchetScan_only .send (fun f hf => by cases f <;> first | rfl | exact absurd rfl hf) rfl).bind
  intro _
  apply (ratchetScan_only .recv (fun f hf => by cases f <;> first | rfl | exact absurd rfl hf) rfl).bind
  intro _
  apply rekeyScan_only.bind
  intro _
  apply relScan_only.bind
  intro _
  exact only_store (countOk_of_none rfl _)

theorem ratchetScan_stores (r : RatchetField → SlotField) :
    Stores [r .nSkipped] (ratchetScan r) := by
  apply (stores_nil _).bind
  intro _
  iterate 4
    apply (stores_nil _).bind
    intro _
  apply (stores_count _).bind
  intro n
  exact stores_nil _

theorem relScan_stores : Stores [.sentCount] relScan := by
  apply (stores_nil _).bind
  intro _
  apply (stores_count _).bind
  intro n
  exact stores_nil _

theorem sessionScan_stores :
    Stores [.send .nSkipped, .recv .nSkipped, .sentCount] sessionScan := by
  apply (stores_nil _).bind
  intro _
  apply (stores_nil _).bind
  intro _
  apply (stores_nil _).bind
  intro _
  apply (stores_nil _).bind
  intro _
  apply (ratchetScan_stores .send).bind
  intro _
  apply (ratchetScan_stores .recv).bind
  intro _
  apply (stores_nil _).bind
  intro _
  apply relScan_stores.bind
  intro _
  exact stores_nil _

theorem sessionScan_root {p : Bytes} (h : (sessionScan p).1 ≠ []) :
    SlotField.root ∈ (sessionScan p).1.map Prod.fst := by
  by_cases hp : p.length < 1 + 1 + ttKey32
  · apply absurd _ h
    rw [sessionScan, bind_eq, need, if_pos hp]
  · have hlen : 34 ≤ p.length := not_lt.mp hp
    have hneed : (need 34 : Scan SlotField Unit) p = ([], .ok () p) := by
      rw [need, if_neg (not_lt.mpr hlen)]
    obtain ⟨wf, b, hfn⟩ := takes_take (F := SlotField) 1 p (by omega)
    obtain ⟨wi, _, hinit⟩ := takes_flag SlotField.iAmInitiator (p.drop 1)
      (by rw [List.length_drop]; omega)
    obtain ⟨wr, _, hroot⟩ := takes_blob SlotField.root ttKey32 ((p.drop 1).drop 1)
      (by rw [List.length_drop, List.length_drop]; exact Nat.le_sub_of_add_le (by omega))
    apply stored_right hneed
    apply stored_right hfn
    apply stored_right hinit
    apply stored_left hroot
    exact stores_blob _ _ _ _ _ _ hroot _ (List.mem_singleton_self _)

theorem sesScan_turn {n : ℕ} {p : Bytes} {t : Turn (Fin 256) SlotField}
    (ht : t ∈ (sesScan n p).1) : ∃ q, (sessionScan q).1 = t.writes ∧
      (t.complete = true → ∃ rest, (sessionScan q).2 = .ok () rest) := by
  induction n generalizing p with
  | zero => cases ht
  | succ n ih =>
    cases p with
    | nil => cases ht
    | cons x p =>
      rw [sesScan] at ht
      match hr : sessionScan (x :: p) with
      | (w, .ok _ rest) =>
        rw [hr] at ht
        obtain rfl | ht := List.mem_cons.mp ht
        · exact ⟨x :: p, by rw [hr], fun _ => ⟨rest, by rw [hr]⟩⟩
        · exact ih ht
      | (w, .fail) =>
        rw [hr] at ht
        rw [List.mem_singleton.mp ht]
        exact ⟨x :: p, by rw [hr], fun h => Bool.noConfusion h⟩
      | (w, .fault) =>
        rw [hr] at ht
        rw [List.mem_singleton.mp ht]
        exact ⟨x :: p, by rw [hr], fun h => Bool.noConfusion h⟩

theorem sesTurns_turn {pt : Bytes} {t : Turn (Fin 256) SlotField} (ht : t ∈ (sesTurns pt).1) :
    ∃ q, (sessionScan q).1 = t.writes ∧
      (t.complete = true → ∃ rest, (sessionScan q).2 = .ok () rest) := by
  rw [sesTurns] at ht
  split_ifs at ht
  · cases ht
  · match hd : pt.drop 6 with
    | [] =>
      rw [hd] at ht
      cases ht
    | count :: p =>
      rw [hd] at ht
      exact sesScan_turn ht

theorem turn_root {pt : Bytes} {t : Turn (Fin 256) SlotField} (ht : t ∈ (sesTurns pt).1)
    (hw : t.writes ≠ []) : SlotField.root ∈ t.writes.map Prod.fst := by
  obtain ⟨q, hq, -⟩ := sesTurns_turn ht
  rw [← hq] at hw ⊢
  exact sessionScan_root hw

theorem turn_counts {pt : Bytes} {t : Turn (Fin 256) SlotField} (ht : t ∈ (sesTurns pt).1)
    (hc : t.complete = true) {f : SlotField} (hf : f.countMax ≠ none) :
    ∃ v, lastStored t.writes f = some v ∧ CountOk f v := by
  obtain ⟨q, hq, hok⟩ := sesTurns_turn ht
  obtain ⟨rest, hrest⟩ := hok hc
  have hread : sessionScan q = (t.writes, .ok () rest) := Prod.ext hq hrest
  have hmem : f ∈ t.writes.map Prod.fst := by
    apply sessionScan_stores q t.writes () rest hread
    match f, hf with
    | .send .nSkipped, _ => simp
    | .recv .nSkipped, _ => simp
    | .sentCount, _ => simp
  obtain ⟨v, hv⟩ := Option.ne_none_iff_exists'.mp fun h => lastStored_eq_none.mp h hmem
  exact ⟨v, hv, sessionScan_only q t.writes () rest hread _ (mem_of_lastStored hv)⟩

def CountsOk (s : SlotField → Bytes) : Prop := ∀ f, CountOk f (s f)

def SlotsOk (e2ee : Slots (Fin 256) SlotField) : Prop :=
  ∀ fn, ∀ f : SlotField, f.Holds (e2ee fn f)

/-- The load of a plaintext is all or nothing for every slot, and leaves no count that is too
large, whatever the slots were before. -/
def RejectsWhole (pt : Bytes) : Prop :=
  ∀ e2ee, SlotsOk e2ee →
    AllOrNothing e2ee (sesTurns pt).1 ∧ ∀ fn, CountsOk (sesLoadFields e2ee pt fn)

theorem countsOk_of_allOrNothing {e2ee : Slots (Fin 256) SlotField} {pt : Bytes}
    (he : SlotsOk e2ee) (h : AllOrNothing e2ee (sesTurns pt).1) (fn : Fin 256) :
    CountsOk (sesLoadFields e2ee pt fn) := by
  intro f
  obtain hsame | ⟨t, ht, hc, rfl, hforce⟩ := h fn
  · rw [sesLoadFields, hsame]
    exact (he fn f).2
  · by_cases hf : f.countMax = none
    · exact countOk_of_none hf _
    · obtain ⟨v, hv, hok⟩ := turn_counts ht hc hf
      rw [sesLoadFields, hforce f v hv]
      exact hok

def blankSlot (f : SlotField) : Bytes := List.replicate (f.width.getD 0) 0

theorem blankSlot_holds (f : SlotField) : f.Holds (blankSlot f) := by
  constructor
  · intro n hn
    rw [blankSlot, List.length_replicate, hn, Option.getD_some]
  · intro m hm
    have hzero : ∀ n, readU16 (List.replicate n 0) = 0 := by
      intro n
      have hget : ∀ i, (List.replicate n (0 : UInt8)).getD i 0 = 0 := by
        intro i
        rw [List.getD_eq_getElem?_getD, List.getElem?_replicate]
        split_ifs <;> rfl
      rw [readU16, hget, hget]
      rfl
    rw [blankSlot, hzero]
    exact Nat.zero_le m

/-- A load never reads past the end of the plaintext. It rejects malformed records whole exactly
when the record it breaks off at has stored nothing, or has spoilt nothing of a complete record
read before for the same friend. -/
theorem session_load_rejects (p : Bytes) :
    (sesTurns (ttSesMagic ++ p)).2 ≠ .fault ∧
      (RejectsWhole (ttSesMagic ++ p) ↔ Harmless (sesTurns (ttSesMagic ++ p)).1) := by
  refine ⟨sesTurns_safe _, ?_, ?_⟩
  · intro h
    apply harmless_of_allOrNothing (Q := SlotField.Holds) blankSlot_holds (r := SlotField.root)
    · intro v
      by_cases hv : v = List.replicate 32 0
      · refine ⟨List.replicate 32 1, ?_, ?_⟩
        · rw [hv]
          decide +kernel
        · refine ⟨?_, countOk_of_none rfl _⟩
          intro n hn
          rw [List.length_replicate]
          exact Option.some.inj hn
      · exact ⟨blankSlot .root, Ne.symm hv, blankSlot_holds .root⟩
    · intro t ht hw
      exact turn_root ht hw
    · intro e2ee he
      exact (h e2ee he).1
  · intro h e2ee he
    have hall := h.allOrNothing e2ee
    exact ⟨hall, countsOk_of_allOrNothing he hall⟩

namespace Instance

def badSkipped : Bytes :=
  [1] ++ ([0, 1] ++ List.replicate 32 7) ++ (List.replicate 70 0 ++ [0, 97])

theorem skipped_count_loaded : ¬ RejectsWhole (ttSesMagic ++ badSkipped) := by
  intro h
  obtain ⟨-, hcounts⟩ := h (fun _ => blankSlot) fun _ => blankSlot_holds
  have hbad : readU16 (sesLoadFields (fun _ => blankSlot) (ttSesMagic ++ badSkipped) 0
      (.send .nSkipped)) = 97 := by decide +kernel
  have hle := hcounts 0 (.send .nSkipped) ttSessionSkippedMax rfl
  rw [hbad] at hle
  exact absurd hle (by decide)

end Instance

end TkTox
