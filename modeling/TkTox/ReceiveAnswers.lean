import TkTox.ReceiveClosing

/-!
Offers, their answers, cancellations and a friend going offline keep the invariant of received
files.
-/

namespace TkTox.Xfers

open PartialFile

variable {env : XferEnv} {w : Xfers} {i j : Fin ttMaxXfers} {x y : TTXfer} {f g : OutFile}
  {e : TTResumeEntry} {t : Incoming} {disk : Disk}

theorem find_slot {p : TTXfer → Bool}
    (h : ((List.finRange ttMaxXfers).find? fun i => (w.slots i).any p) = some i) :
    ∃ x, w.slots i = some x ∧ p x = true := by
  have := List.find?_some h
  simpa [Option.any_eq_true] using this

theorem xferFind_some {fn num : ℕ} (h : w.xferFind fn num = some i) :
    ∃ x, w.slots i = some x ∧ x.fn = fn ∧ x.fileNumber = num := by
  obtain ⟨x, hx, hp⟩ := find_slot h
  exact ⟨x, hx, by simpa using hp⟩

theorem xferFind_none {fn num : ℕ} (h : w.xferFind fn num = none) (hx : w.slots i = some x) :
    (x.fn, x.fileNumber) ≠ (fn, num) := by
  have := List.find?_eq_none.mp h i (List.mem_finRange i)
  simpa [hx] using this

theorem Good.setIncoming (h : Good env w) {fn num : ℕ} (t : Option Incoming)
    (hk : ∀ i x, w.slots i = some x → x.sending = false → (x.fn, x.fileNumber) ≠ (fn, num)) :
    Good env (w.setIncoming fn num t) :=
  h.incoming fun i x hx hs => Function.update_of_ne (hk i x hx hs) _ _

theorem free_incoming (w : Xfers) (i : Fin ttMaxXfers) (kept : ℕ) (inc : ℕ × ℕ → Option Incoming) :
    { w with incoming := inc }.xferFree i kept = { w.xferFree i kept with incoming := inc } := by
  unfold xferFree
  dsimp only
  split <;> rfl

theorem failed_incoming (w : Xfers) (i : Fin ttMaxXfers) (x : TTXfer) (kept : ℕ)
    (inc : ℕ × ℕ → Option Incoming) :
    { w with incoming := inc }.xferFailed i x kept = { w.xferFailed i x kept with incoming := inc } := by
  unfold xferFailed
  split
  · exact free_incoming (w.resumeSave.push (.failed x.fn x.id)) i kept inc
  · exact free_incoming (w.push (.failed x.fn x.id)) i kept inc

theorem free_keeps_incoming (w : Xfers) (i : Fin ttMaxXfers) (kept : ℕ) :
    (w.xferFree i kept).incoming = w.incoming := by
  unfold xferFree
  split <;> rfl

theorem free_cancel (w : Xfers) (i : Fin ttMaxXfers) (kept fn num : ℕ) :
    (w.toxFileCancel fn num).xferFree i kept =
      (w.xferFree i kept).setIncoming fn num none := by
  unfold toxFileCancel Xfers.setIncoming
  rw [free_incoming, free_keeps_incoming]

theorem failed_keeps_incoming (w : Xfers) (i : Fin ttMaxXfers) (x : TTXfer) (kept : ℕ) :
    (w.xferFailed i x kept).incoming = w.incoming := by
  unfold xferFailed
  split
  · exact free_keeps_incoming _ i kept
  · exact free_keeps_incoming _ i kept

theorem failed_cancel (w : Xfers) (i : Fin ttMaxXfers) (x : TTXfer) (kept fn num : ℕ) :
    (w.toxFileCancel fn num).xferFailed i x kept = (w.xferFailed i x kept).setIncoming fn num none := by
  unfold toxFileCancel Xfers.setIncoming
  rw [failed_incoming, failed_keeps_incoming]

theorem failed_slots (w : Xfers) (i j : Fin ttMaxXfers) (x : TTXfer) (kept : ℕ) :
    (w.xferFailed i x kept).slots j = if j = i then none else w.slots j := by
  unfold xferFailed
  split
  · exact free_slots (w.resumeSave.push (.failed x.fn x.id)) i j kept
  · exact free_slots (w.push (.failed x.fn x.id)) i j kept

theorem failed_resumeIdx (w : Xfers) (i : Fin ttMaxXfers) (x : TTXfer) (kept : ℕ) :
    (w.xferFailed i x kept).resumeIdx = w.resumeIdx := by
  unfold xferFailed
  split
  · exact free_resumeIdx _ i kept
  · exact free_resumeIdx _ i kept

theorem Good.cancelled (h : Good env w) (hx : w.slots i = some x) {w' : Xfers} (hw : Good env w')
    (hslots : ∀ j, w'.slots j = if j = i then none else w.slots j) (t : Option Incoming) :
    Good env (w'.setIncoming x.fn x.fileNumber t) := by
  refine hw.setIncoming t ?_
  intro j y hy _
  rw [hslots] at hy
  split at hy
  · cases hy
  · next hj => exact h.ownKey hx j y hj hy

theorem alloc_free (h : w.xferAlloc = some i) : w.slots i = none := by
  have := List.find?_some h
  simpa using this

theorem resumable_some {fileId : Option FileId} {size : ℕ} {opened : Bool} {r : TTResumeEntry}
    (h : w.resumable fileId size opened = some r) :
    fileId = some r.fileId ∧ HasEntry w.resumeIdx r ∧ 0 < r.bytes ∧ r.bytes < size ∧
      ∃ c, w.disk r.path = some c := by
  unfold resumable at h
  split at h
  · cases h
  · next id =>
    split at h
    · cases h
    · next r' hr =>
      split at h
      · next hc =>
        cases h
        obtain ⟨he, hid⟩ := ttResumeFind_some hr
        exact ⟨by rw [hid], he, hc.1, hc.2.1, Option.isSome_iff_exists.mp hc.2.2.2⟩
      · cases h

theorem Offered.src_known (env : XferEnv) {o : Offered} {id : FileId} (h : o.fileId = some id) :
    o.src env.file = env.file id := by
  cases o with
  | known id' =>
    cases h
    rfl
  | anonymous src => cases h

theorem offer_good (h : Good env w) {fn num : ℕ} {o : Offered} {name : Bytes} {opened : Bool}
    (hc : Careful env w (.offer fn num o name opened)) :
    Good env (step env w (.offer fn num o name opened)) := by
  simp only [step]
  split
  · exact h
  next hfind =>
  have hnone : w.xferFind fn num = none := by simpa using hfind
  have hkey : ∀ j y, w.slots j = some y → (y.fn, y.fileNumber) ≠ (fn, num) :=
    fun j y hy => xferFind_none hnone hy
  unfold xferOnOffer
  cases ha : w.xferAlloc with
  | none =>
    rw [show (w.setIncoming fn num (some ⟨o.src env.file, 0, false⟩)).xferAlloc = none from ha]
    exact (h.setIncoming _ fun j y hy _ => hkey j y hy).setIncoming none fun j y hy _ => hkey j y hy
  | some i =>
    rw [show (w.setIncoming fn num (some ⟨o.src env.file, 0, false⟩)).xferAlloc = some i from ha]
    have hslot := alloc_free ha
    dsimp only
    cases hr : w.resumable o.fileId (o.src env.file).length opened with
    | none =>
      rw [show resumable { w.setIncoming fn num (some ⟨o.src env.file, 0, false⟩) with
        seq := _ } o.fileId (o.src env.file).length opened = none from hr]
      have hg := (h.setIncoming (some ⟨o.src env.file, 0, false⟩) fun j y hy _ => hkey j y hy).seq
        (w.seq + 1)
      refine (hg.seat ?_ ?_ ?_).push _
      · intro y hy
        cases hy
        exact fun j z _ hz => hkey j z hz
      · intro y hy
        cases hy
        refine .inr ⟨⟨o.src env.file, 0, false⟩, Function.update_self _ _ _, ?_⟩
        exact ⟨⟨rfl, rfl, fun id hid => Offered.src_known env hid, rfl⟩, rfl, rfl, rfl⟩
      · intro y g e ho
        exact absurd (hslot.symm.trans ho.1) (by simp)
    | some r =>
      rw [show resumable { w.setIncoming fn num (some ⟨o.src env.file, 0, false⟩) with
        seq := _ } o.fileId (o.src env.file).length opened = some r from hr]
      obtain ⟨hid, he, hpos, hlt, c, hd⟩ := resumable_some hr
      have hun := hc hnone (by simp [ha]) r hr
      have hsrc := Offered.src_known env hid
      have hb : Backed env w.disk r := h.idle r he fun j y g ho hy => (hun j y g ho).2 _ hid hy
      have hfill : Filling (o.src env.file) c r.bytes [] := by
        constructor
        · have := hb.bytes
          rwa [correctBytes, hd, ← hsrc] at this
        · rfl
        · have := hb.length hpos
          rwa [hd, ← hsrc] at this
      let x : TTXfer :=
        { id := w.seq + 1, fn := fn, fileNumber := num, sending := false, accepted := true,
          fp := some (.writing ⟨r.path, r.bytes, []⟩), size := (o.src env.file).length,
          got := r.bytes, gotPrev := r.bytes, fileId := o.fileId,
          name := name.take toxMaxFilenameLength, path := r.path }
      have hstep : Arrives env w i x ⟨r.path, r.bytes, []⟩ ⟨o.src env.file, r.bytes, true⟩ w.disk
          w.resumeIdx := by
        refine ⟨fun j y _ hy => hkey j y hy, ?_, rfl, fun _ _ => rfl, ?_, h.unique, ?_, ?_, ?_, ?_⟩
        · intro j y g _ ho
          exact hun j y g ho
        · exact ⟨⟨rfl, rfl, fun id hid => Offered.src_known env hid, rfl⟩, rfl, ⟨c, hd, hfill⟩, rfl⟩
        · intro e he'
          by_cases hsame : e.fileId = r.fileId
          · have := h.unique.entry_eq he' he hsame
            subst this
            exact .inl ⟨hid, rfl, le_rfl⟩
          · refine .inr ⟨he', ?_⟩
            change o.fileId ≠ some e.fileId
            rw [hid]
            exact fun heq => hsame (Option.some.inj heq).symm
        · intro y g ho
          exact absurd (hslot.symm.trans ho.1) (by simp)
        · intro e hk hp hpos'
          change o.fileId = some e.fileId
          rw [hid, h.share e r hk (.inl he) hp hpos' hpos]
        · intro e hmem _ _
          exact h.saved e hmem
      have hgood := ((h.arrive hstep).seq (w.seq + 1)).push (.resumed fn (w.seq + 1) x.name x.size)
      simpa [toxFileSeek, toxFileResume, Xfers.setIncoming, setSlot, Xfers.push, Function.update_idem, x]
        using hgood

theorem resumeAt_cases (w : Xfers) (path : Bytes) (size : ℕ) :
    w.resumeAt path size = 0 ∨
      ∃ c, w.disk path = some c ∧ w.resumeAt path size = c.length ∧ 0 < c.length ∧ c.length < size := by
  unfold resumeAt
  split
  · next c hc =>
    split
    · next hlt => exact .inr ⟨c, hc, rfl, hlt.1, hlt.2⟩
    · exact .inl rfl
  · exact .inl rfl

theorem offered_slot {xferId : ℕ} (h : w.xferOffered xferId = some i) :
    ∃ x, w.slots i = some x ∧ x.sending = false ∧ x.accepted = false := by
  obtain ⟨x, hx, hp⟩ := find_slot h
  simp only [Bool.and_eq_true, Bool.not_eq_true'] at hp
  exact ⟨x, hx, hp.1.2, hp.2⟩

theorem Good.offering (h : Good env w) (hx : w.slots i = some x) (hs : x.sending = false)
    (ha : x.accepted = false) :
    (∀ f, x.fp ≠ some (.writing f)) ∧
      ∃ t, w.incoming (x.fn, x.fileNumber) = some t ∧ Offering env t x := by
  have hw : ∀ f, x.fp ≠ some (.writing f) := by
    intro f hf
    obtain ⟨t, -, harr⟩ := h.opened i x f ⟨hx, hf⟩
    simp [harr.accepted] at ha
  exact ⟨hw, h.offered i x hx hs hw⟩

theorem Good.failed_cancel (h : Good env w) (hx : w.slots i = some x) {kept : ℕ}
    (hs : FailSaves x → Settled w fun _ => False) (hk : Kept w i kept) :
    Good env ((w.toxFileCancel x.fn x.fileNumber).xferFailed i x kept) := by
  rw [Xfers.failed_cancel]
  exact h.cancelled hx (h.failed hs hk) (fun j => failed_slots w i j x kept) none

theorem accept_arrives (h : Good env w) (hx : w.slots i = some x) (hs : x.sending = false)
    (hacc : x.accepted = false) (ht : w.incoming (x.fn, x.fileNumber) = some t)
    (ho : Offering env t x) {path : Bytes} (hm : MayOpen w x path) {x' : TTXfer} {idx' : List TTResumeEntry}
    (hfn : x'.fn = x.fn) (hnum : x'.fileNumber = x.fileNumber) (hid : x'.fileId = x.fileId)
    (hsize : x'.size = x.size) (hsend : x'.sending = x.sending) (hopen : x'.accepted = true)
    (hgot : x'.got = w.resumeAt path x.size)
    (hfp : x'.fp = some (.writing ⟨path, w.resumeAt path x.size, []⟩))
    (hidx : idx' = match x.fileId with
      | some id => ttResumePut w.resumeIdx id path x'.got
      | none => w.resumeIdx) :
    Arrives env w i x' ⟨path, w.resumeAt path x.size, []⟩ ⟨t.src, w.resumeAt path x.size, true⟩
      (if w.resumeAt path x.size = 0 then Function.update w.disk path (some []) else w.disk) idx' := by
  obtain ⟨hw, -⟩ := h.offering hx hs hacc
  refine ⟨?_, ?_, hfp, ?_, ?_, ?_, ?_, ?_, ?_, ?_⟩
  · intro j y hj hy
    rw [hfn, hnum]
    exact h.ownKey hx j y hj hy
  · intro j y g _ hg
    rw [hid]
    exact hm.unshared j y g hg
  · intro p hp
    split
    · exact Function.update_of_ne hp _ _
    · rfl
  · refine ⟨⟨hsend.trans hs, ?_, ?_, ?_⟩, hopen, ?_, ?_⟩
    · rw [hsize]
      exact ho.size
    · rw [hid]
      exact ho.src
    · exact hgot.symm
    · obtain h0 | ⟨c, hc, hr, hpos, -⟩ := resumeAt_cases w path x.size
      · rw [if_pos h0]
        refine ⟨[], Function.update_self _ _ _, ?_, rfl, by simp⟩
        simp [h0]
      · have hbegins := hm.begins t ht
        rw [hc, hr, Option.getD_some, List.take_length] at hbegins
        rw [if_neg (by omega), hr]
        refine ⟨c, hc, ?_, rfl, hbegins.length_le⟩
        exact (common_of_isPrefix hbegins).ge
    · exact hgot
  · subst hidx
    split
    · exact h.unique.put _ _ _
    · exact h.unique
  · subst hidx
    intro e he
    rw [hid]
    cases hxid : x.fileId with
    | none =>
      rw [hxid] at he
      exact .inr ⟨he, by simp⟩
    | some id =>
      rw [hxid] at he
      obtain ⟨heid, hp, hb⟩ | ⟨hold, hne⟩ := he.put h.unique
      · refine .inl ⟨by rw [heid], ?_, hb.le⟩
        rw [hp]
        exact List.take_of_length_le hm.named
      · exact .inr ⟨hold, fun heq => hne (Option.some.inj heq).symm⟩
  · intro y g hg
    have := hg.1.symm.trans hx
    cases this
    exact absurd hg.2 (hw g)
  · intro e hk hp hpos
    rw [hid]
    exact (hm.entries e hk hp hpos).1
  · intro e he hp hpos
    have hle := (hm.entries e (.inr he) hp hpos).2
    rw [if_neg (by omega)]
    exact h.saved e he

theorem accept_good (h : Good env w) {xferId : ℕ} {path : Bytes} {opened : Bool}
    (hc : Careful env w (.accept xferId path opened)) :
    Good env (step env w (.accept xferId path opened)) := by
  simp only [step, handleCmdFileAccept]
  cases ho : w.xferOffered xferId with
  | none => exact h
  | some i =>
    obtain ⟨x, hx, hs, hacc⟩ := offered_slot ho
    obtain ⟨hw, t, ht, hoff⟩ := h.offering hx hs hacc
    simp only [hx]
    split
    · refine h.failed_cancel hx ?_ (kept_of_closed hx hw 0)
      intro hf
      have := hf.2.2.1
      rw [hoff.got] at this
      exact absurd this (lt_irrefl 0)
    next hop =>
    have hop : opened = true := by simpa using hop
    have hm := hc i x ho hx hop
    have hpos : t.pos = 0 := hoff.pos.trans hoff.got
    have hgood : ∀ x' : TTXfer, x'.fn = x.fn → x'.fileNumber = x.fileNumber →
        x'.fileId = x.fileId → x'.size = x.size → x'.sending = x.sending → x'.accepted = true →
        x'.got = w.resumeAt path x.size → x'.fp = some (.writing ⟨path, w.resumeAt path x.size, []⟩) →
        Good env _ := fun _ hfn hnum hid hsize hsend hopen hgot hfp =>
      h.arrive (accept_arrives h hx hs hacc ht hoff hm hfn hnum hid hsize hsend hopen hgot hfp rfl)
    by_cases h0 : w.resumeAt path x.size = 0
    · have hg := hgood { x with
        fp := some (.writing ⟨path, w.resumeAt path x.size, []⟩), accepted := true,
        path := path.take ttXferPathMax } rfl rfl rfl rfl rfl rfl (hoff.got.trans h0.symm) rfl
      simp only [h0, if_true] at hg ⊢
      apply Good.mark
      cases hid : x.fileId with
      | none => simpa [hid, toxFileResume, Xfers.setIncoming, setSlot, ht, hpos] using hg
      | some id =>
        simpa [hid, toxFileResume, Xfers.setIncoming, setSlot, setResumeIdx, ht, hpos] using hg
    · have hg := hgood { x with
        fp := some (.writing ⟨path, w.resumeAt path x.size, []⟩), accepted := true,
        path := path.take ttXferPathMax, got := w.resumeAt path x.size,
        gotPrev := w.resumeAt path x.size } rfl rfl rfl rfl rfl rfl rfl rfl
      simp only [h0, if_false] at hg ⊢
      apply Good.mark
      cases hid : x.fileId with
      | none =>
        simpa [hid, toxFileResume, toxFileSeek, Xfers.setIncoming, setSlot, ht,
          Function.update_idem] using hg
      | some id =>
        simpa [hid, toxFileResume, toxFileSeek, Xfers.setIncoming, setSlot, setResumeIdx, ht,
          Function.update_idem] using hg

theorem reject_good (h : Good env w) {xferId : ℕ} : Good env (step env w (.reject xferId)) := by
  simp only [step, handleCmdFileReject]
  cases ho : w.xferOffered xferId with
  | none => exact h
  | some i =>
    obtain ⟨x, hx, hs, hacc⟩ := offered_slot ho
    simp only [hx]
    rw [free_cancel]
    have hk := kept_of_closed hx (h.offering hx hs hacc).1 0
    exact h.cancelled hx (h.free hk) (fun j => free_slots w i j 0) none

theorem cancel_good (h : Good env w) {xferId kept : ℕ} (hc : Careful env w (.cancel xferId kept)) :
    Good env (step env w (.cancel xferId kept)) := by
  simp only [step, handleCmdFileCancel]
  cases ho : w.xferById xferId with
  | none => exact h
  | some i =>
    obtain ⟨x, hx, -⟩ := find_slot ho
    simp only [hx]
    exact h.failed_cancel hx (hc i x ho hx).1 (hc i x ho hx).2

theorem cancelled_good (h : Good env w) {fn num kept : ℕ} (hc : Careful env w (.cancelled fn num kept)) :
    Good env (step env w (.cancelled fn num kept)) := by
  simp only [step, cbFileRecvControl]
  cases ho : w.xferFind fn num with
  | none =>
    rw [show (w.toxFileCancel fn num).xferFind fn num = none from ho]
    exact h.setIncoming none fun i x hx _ => xferFind_none ho hx
  | some i =>
    rw [show (w.toxFileCancel fn num).xferFind fn num = some i from ho]
    obtain ⟨x, hx, rfl, rfl⟩ := xferFind_some ho
    simp only [show (w.toxFileCancel x.fn x.fileNumber).slots i = some x from hx]
    exact h.failed_cancel hx (hc i x ho hx).1 (hc i x ho hx).2

theorem mem_of_lt {l l' : List (Fin ttMaxXfers)} (hl : l ++ i :: l' = List.finRange ttMaxXfers) (hj : j < i) :
    j ∈ l := by
  have hsorted := List.pairwise_lt_finRange ttMaxXfers
  rw [← hl, List.pairwise_append] at hsorted
  have hmem : j ∈ l ++ i :: l' := by
    rw [hl]
    exact List.mem_finRange j
  obtain hmem | hmem := List.mem_append.mp hmem
  · exact hmem
  · obtain rfl | hmem := List.mem_cons.mp hmem
    · exact absurd hj (lt_irrefl j)
    · exact absurd hj ((List.pairwise_cons.mp hsorted.2.1).1 j hmem).not_gt

theorem purge_good (h : Good env w) {fn : ℕ} {kept : Fin ttMaxXfers → ℕ} (hc : Careful env w (.disconnect fn kept))
    (l l' : List (Fin ttMaxXfers)) (hl : l ++ l' = List.finRange ttMaxXfers) :
    Good env (l.foldl (xferPurgeSlot fn kept) w) ∧
      (l.foldl (xferPurgeSlot fn kept) w).resumeIdx = w.resumeIdx ∧
      (∀ j, j ∉ l → (l.foldl (xferPurgeSlot fn kept) w).slots j = w.slots j) ∧
      ∀ j ∈ l, ∀ y, (l.foldl (xferPurgeSlot fn kept) w).slots j = some y → w.slots j = some y ∧ y.fn ≠ fn := by
  induction l using List.reverseRecOn generalizing l' with
  | nil => exact ⟨h, rfl, fun _ _ => rfl, by simp⟩
  | append_singleton l i ih =>
    rw [List.append_assoc] at hl
    obtain ⟨hg, hidx, hrest, hdone⟩ := ih _ hl
    have hmem : i ∉ l := by
      have hnd := List.nodup_finRange ttMaxXfers
      rw [← hl] at hnd
      exact fun hi => List.disjoint_of_nodup_append hnd hi (by simp)
    simp only [List.foldl_append, List.foldl_cons, List.foldl_nil]
    generalize l.foldl (xferPurgeSlot fn kept) w = w' at hg hidx hrest hdone ⊢
    have hopen {j : Fin ttMaxXfers} {y : TTXfer} {g : OutFile} (ho : Open w' j y g) :
        Open w j y g ∧ (j ∈ l → y.fn ≠ fn) := by
      by_cases hj : j ∈ l
      · obtain ⟨hy, hne⟩ := hdone j hj y ho.1
        exact ⟨⟨hy, ho.2⟩, fun _ => hne⟩
      · exact ⟨⟨(hrest j hj).symm.trans ho.1, ho.2⟩, fun hm => absurd hm hj⟩
    by_cases hp : ∃ x, w.slots i = some x ∧ x.fn = fn
    · obtain ⟨x, hx, hfn⟩ := hp
      obtain ⟨hsave, hkept⟩ := hc i x hx hfn
      have hx' : w'.slots i = some x := (hrest i hmem).trans hx
      have hstep : xferPurgeSlot fn kept w' i = w'.xferFailed i x (kept i) := by
        simp only [xferPurgeSlot, hx', if_pos hfn]
      rw [hstep]
      refine ⟨hg.failed ?_ ?_, (failed_resumeIdx w' i x _).trans hidx, ?_, ?_⟩
      · intro hf j y g ho _ e he hid
        obtain ⟨hold, hne⟩ := hopen ho
        rw [hidx] at he
        refine hsave hf j y g hold ?_ e he hid
        rintro ⟨hj, z, hz, hzfn⟩
        obtain rfl := Option.some.inj (hz.symm.trans hold.1)
        exact hne (mem_of_lt hl hj) hzfn
      · intro y f ho e he hid
        rw [hidx] at he
        exact hkept y f (hopen ho).1 e he hid
      · intro j hj
        rw [List.mem_append, List.mem_singleton, not_or] at hj
        rw [failed_slots, if_neg hj.2]
        exact hrest j hj.1
      · intro j hj y hy
        rw [failed_slots] at hy
        split at hy
        · cases hy
        · next hne => exact hdone j ((List.mem_append.mp hj).resolve_right (by simpa using hne)) y hy
    · have hstep : xferPurgeSlot fn kept w' i = w' := by
        unfold xferPurgeSlot
        rw [hrest i hmem]
        split
        · next x hx => rw [if_neg (fun hfn => hp ⟨x, hx, hfn⟩)]
        · rfl
      rw [hstep]
      refine ⟨hg, hidx, ?_, ?_⟩
      · intro j hj
        exact hrest j fun hm => hj (List.mem_append_left _ hm)
      · intro j hj y hy
        obtain hj | hj := List.mem_append.mp hj
        · exact hdone j hj y hy
        · obtain rfl := List.mem_singleton.mp hj
          have hold := (hrest j hmem).symm.trans hy
          exact ⟨hold, fun hfn => hp ⟨y, hold, hfn⟩⟩

theorem purge_incoming (fn : ℕ) (kept : Fin ttMaxXfers → ℕ) (slots : List (Fin ttMaxXfers))
    (inc : ℕ × ℕ → Option Incoming) :
    ∀ w : Xfers, slots.foldl (xferPurgeSlot fn kept) { w with incoming := inc } =
      { slots.foldl (xferPurgeSlot fn kept) w with incoming := inc } := by
  induction slots with
  | nil =>
    intro w
    rfl
  | cons i slots ih =>
    intro w
    have hstep : xferPurgeSlot fn kept { w with incoming := inc } i =
        { xferPurgeSlot fn kept w i with incoming := inc } := by
      simp only [xferPurgeSlot]
      split
      · split
        · exact failed_incoming w i _ _ inc
        · rfl
      · rfl
    rw [List.foldl_cons, List.foldl_cons, hstep, ih]

theorem disconnect_good (h : Good env w) {fn : ℕ} {kept : Fin ttMaxXfers → ℕ}
    (hc : Careful env w (.disconnect fn kept)) : Good env (step env w (.disconnect fn kept)) := by
  simp only [step, xferAllPurge, purge_incoming]
  obtain ⟨hg, -, -, hdone⟩ := purge_good h hc (List.finRange ttMaxXfers) [] (List.append_nil _)
  have hinc : ((List.finRange ttMaxXfers).foldl (xferPurgeSlot fn kept) w).incoming = w.incoming := by
    have hcut := purge_incoming fn kept (List.finRange ttMaxXfers) w.incoming w
    have hinc := congrArg Xfers.incoming hcut
    exact hinc
  refine hg.incoming ?_
  intro j y hy _
  have hne := (hdone j (List.mem_finRange j) y hy).2
  rw [hinc]
  exact if_neg hne

end TkTox.Xfers
