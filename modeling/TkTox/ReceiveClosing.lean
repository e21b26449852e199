import TkTox.ReceiveInvariant

/-!
Writing, saving and closing: what keeps the invariant of received files, and with it
`xfer_failed`, `xfer_done` and `xfer_progress`.
-/

namespace TkTox.Xfers

open PartialFile

variable {env : XferEnv} {w : Xfers} {i j : Fin ttMaxXfers} {x y : TTXfer} {f g : OutFile}
  {e : TTResumeEntry} {t : Incoming} {disk : Disk}

def Closed (env : XferEnv) (w : Xfers) (x : TTXfer) : Prop :=
  (x.sending = true ∧ ∃ p, x.fp = some (.reading p)) ∨
    ∃ t, w.incoming (x.fn, x.fileNumber) = some t ∧ Offering env t x

theorem Closed.not_writing (h : Closed env w x) : x.fp ≠ some (.writing f) := by
  obtain ⟨-, p, hp⟩ | ⟨t, -, ht⟩ := h
  · simp [hp]
  · simp [ht.unopened]

theorem Good.seat (h : Good env w) {s : Option TTXfer} (hkey : ∀ x ∈ s, OwnKey w i x)
    (hs : ∀ x ∈ s, Closed env w x)
    (hown : ∀ x f e, Open w i x f → HasEntry w.resumeIdx e → x.fileId = some e.fileId →
      Backed env w.disk e) :
    Good env { w with slots := Function.update w.slots i s } := by
  have hopen : ∀ {j y g}, Open { w with slots := Function.update w.slots i s } j y g →
      j ≠ i ∧ Open w j y g := by
    intro j y g ho
    obtain ⟨-, hy, hf⟩ | hold := open_update ho
    · exact absurd hf (hs y hy).not_writing
    · exact hold
  constructor
  case keys =>
    intro j k y z hj hk hfn hnum
    exact h.keys_update hkey hj hk hfn hnum
  case sends =>
    intro j y hy hsend
    dsimp only at hy
    obtain ⟨-, hy⟩ | ⟨-, hy⟩ := slot_update hy
    · obtain ⟨-, hp⟩ | ⟨t, -, ht⟩ := hs y hy
      · exact hp
      · exact absurd ht.receiving (by simp [hsend])
    · exact h.sends j y hy hsend
  case offered =>
    intro j y hy hsend hf
    dsimp only at hy
    obtain ⟨-, hy⟩ | ⟨-, hy⟩ := slot_update hy
    · obtain ⟨hp, -⟩ | ht := hs y hy
      · exact absurd hp (by simp [hsend])
      · exact ht
    · exact h.offered j y hy hsend hf
  case opened =>
    intro j y g ho
    exact h.opened j y g (hopen ho).2
  case alone =>
    intro j k y z g g' hj hk hjk
    exact h.alone j k y z g g' (hopen hj).2 (hopen hk).2 hjk
  case unique => exact h.unique
  case uniqueSaved => exact h.uniqueSaved
  case own =>
    intro j y g e ho he hid
    exact h.own j y g e (hopen ho).2 he hid
  case idle =>
    intro e he hno
    by_cases hex : ∃ x f, Open w i x f ∧ x.fileId = some e.fileId
    · obtain ⟨x, f, ho, hid⟩ := hex
      exact hown x f e ho he hid
    · refine h.idle e he ?_
      intro j y g ho
      by_cases hj : j = i
      · subst hj
        exact fun hid => hex ⟨y, g, ho, hid⟩
      · refine hno j y g ⟨?_, ho.2⟩
        dsimp only
        rw [Function.update_of_ne hj]
        exact ho.1
  case saved => exact h.saved
  case share => exact h.share
  case claims =>
    intro j y g e ho he hp hpos
    exact h.claims j y g e (hopen ho).2 he hp hpos
  case receipts => exact h.receipts
  case moments => exact h.moments

theorem Good.incoming (h : Good env w) {incoming : ℕ × ℕ → Option Incoming}
    (hin : ∀ i x, w.slots i = some x → x.sending = false →
      incoming (x.fn, x.fileNumber) = w.incoming (x.fn, x.fileNumber)) :
    Good env { w with incoming := incoming } := by
  refine { h with offered := ?_, opened := ?_ }
  · intro i x hx hs hf
    obtain ⟨t, ht, ho⟩ := h.offered i x hx hs hf
    exact ⟨t, (hin i x hx hs).trans ht, ho⟩
  · intro i x f ho
    obtain ⟨t, ht, ha⟩ := h.opened i x f ho
    exact ⟨t, (hin i x ho.1 ha.receiving).trans ht, ha⟩

theorem Good.push (h : Good env w) (ev : XferEvent) : Good env (w.push ev) := { h with }

theorem Good.seq (h : Good env w) (n : ℕ) : Good env { w with seq := n } := { h with }

theorem Good.forget (h : Good env w) {idx : List TTResumeEntry} (hu : UniqueIds idx)
    (hidx : ∀ e, HasEntry idx e → HasEntry w.resumeIdx e) : Good env (w.setResumeIdx idx) := by
  have hknown : ∀ {e}, Known (w.setResumeIdx idx) e → Known w e := by
    intro e he
    obtain he | he := he
    · exact .inl (hidx e he)
    · exact .inr he
  refine { h with unique := hu, own := ?_, idle := ?_, share := ?_, claims := ?_ }
  · intro i x f e ho he hid
    exact h.own i x f e ho (hidx e he) hid
  · intro e he hno
    exact h.idle e (hidx e he) hno
  · intro e e' he he' hp hpos hpos'
    exact h.share e e' (hknown he) (hknown he') hp hpos hpos'
  · intro i x f e ho he hp hpos
    exact h.claims i x f e ho (hknown he) hp hpos

theorem Settled.mono {closed closed' : Fin ttMaxXfers → Prop} (h : Settled w closed)
    (hc : ∀ j, closed j → closed' j) : Settled w closed' :=
  fun j y g ho hn => h j y g ho fun hj => hn (hc j hj)

theorem Settled.forget {closed : Fin ttMaxXfers → Prop} (h : Settled w closed)
    {idx : List TTResumeEntry} (hidx : ∀ e, HasEntry idx e → HasEntry w.resumeIdx e) :
    Settled (w.setResumeIdx idx) closed := by
  intro j y g ho hc e he
  exact h j y g ho hc e (hidx e he)

theorem Good.save (h : Good env w) (hs : Settled w fun _ => False) : Good env w.resumeSave := by
  have hmem : ∀ {e}, e ∈ ttResumeSaved w.resumeIdx → HasEntry w.resumeIdx e := mem_saved
  have hknown : ∀ {e}, Known { w with rsum := ttResumeSaved w.resumeIdx } e → Known w e := by
    intro e he
    obtain he | he := he
    · exact .inl he
    · exact .inl (hmem he)
  have hg : Good env { w with rsum := ttResumeSaved w.resumeIdx } := by
    refine { h with uniqueSaved := h.unique.saved, saved := ?_, share := ?_, claims := ?_ }
    · intro e he
      have he := hmem he
      by_cases hex : ∃ i x f, Open w i x f ∧ x.fileId = some e.fileId
      · obtain ⟨i, x, f, ho, hid⟩ := hex
        obtain ⟨t, -, ha⟩ := h.opened i x f ho
        exact ha.backed hid (h.own i x f e ho he hid).1 (hs i x f ho (fun h => h) e he hid)
      · refine h.idle e he ?_
        intro i x f ho hid
        exact hex ⟨i, x, f, ho, hid⟩
    · intro e e' he he' hp hpos hpos'
      exact h.share e e' (hknown he) (hknown he') hp hpos hpos'
    · intro i x f e ho he hp hpos
      exact h.claims i x f e ho (hknown he) hp hpos
  exact hg.mark

theorem Good.certify (h : Good env w) {rs : List Receipt} (hr : ∀ r ∈ rs, r.content = some r.src) :
    Good env (w.certify rs) := by
  refine { h with receipts := ?_ }
  intro r hmem
  obtain hmem | hmem := List.mem_append.mp hmem
  · exact h.receipts r hmem
  · exact hr r hmem

theorem written_of_ne {p : Bytes} (hp : p ≠ f.path) (k : ℕ) : f.written disk k p = disk p :=
  Function.update_of_ne hp _ _

theorem filling_written {src c : Bytes} (hc : disk f.path = some c)
    (hf : Filling src c f.pos f.buffer) (k : ℕ) :
    ∃ c', f.written disk k f.path = some c' ∧
      Filling src c' (f.flushed k).pos (f.flushed k).buffer ∧ common c src ≤ common c' src := by
  obtain ⟨hf', hmono⟩ := hf.flush 0 k
  refine ⟨_, ?_, hf', hmono⟩
  rw [OutFile.written, Function.update_self, hc]
  rfl

theorem flushed_got (f : OutFile) (k : ℕ) :
    (f.flushed k).pos + (f.flushed k).buffer.length = f.pos + f.buffer.length := by
  simp only [OutFile.flushed, List.length_take, List.length_drop]
  omega

theorem Good.arrives (h : Good env w) (ho : Open w i x f) {x' : TTXfer} {f' : OutFile}
    {t' : Incoming} {disk' : Disk} {idx' : List TTResumeEntry}
    (hfn : x'.fn = x.fn) (hnum : x'.fileNumber = x.fileNumber) (hid : x'.fileId = x.fileId)
    (hfp : x'.fp = some (.writing f')) (hp : f'.path = f.path)
    (hdisk : ∀ p, p ≠ f.path → disk' p = w.disk p) (harr : Arriving env disk' t' x' f')
    (hmono : common ((w.disk f.path).getD []) t'.src ≤ common ((disk' f.path).getD []) t'.src)
    (hu : UniqueIds idx')
    (hent : ∀ e, HasEntry idx' e →
      (x.fileId = some e.fileId ∧ e.bytes ≤ x'.got ∧
        ∃ e₀, HasEntry w.resumeIdx e₀ ∧ e₀.fileId = e.fileId ∧ e₀.path = e.path) ∨
      (HasEntry w.resumeIdx e ∧ x.fileId ≠ some e.fileId)) :
    Arrives env w i x' f' t' disk' idx' := by
  refine ⟨?_, ?_, hfp, ?_, harr, hu, ?_, ?_, ?_, ?_⟩
  · intro j y hj hy
    rw [hfn, hnum]
    exact h.ownKey ho.1 j y hj hy
  · intro j y g hj hg
    rw [hp, hid]
    obtain ⟨hpath, hne⟩ := h.alone j i y x g f hg ho hj
    exact ⟨hpath, fun id hx hy => hne id hy hx⟩
  · rwa [hp]
  · intro e he
    rw [hid]
    obtain ⟨hx, hb, e₀, he₀, hid₀, hp₀⟩ | hold := hent e he
    · refine .inl ⟨hx, ?_, hb⟩
      rw [hp, ← hp₀]
      exact (h.own i x f e₀ ho he₀ (hid₀ ▸ hx)).1
    · exact .inr hold
  · intro y g hg
    have := hg.1.symm.trans ho.1
    cases this
    exact hid.symm
  · intro e hk hpath hpos
    rw [hid]
    exact h.claims i x f e ho hk (hpath.trans hp) hpos
  · intro e he hpath hpos
    have hpath := hpath.trans hp
    have hb := h.saved e he
    have hsrc := harr.src _ (hid.trans (h.claims i x f e ho (.inr he) hpath hpos))
    constructor
    · have := hb.bytes
      rw [correctBytes, hpath, ← hsrc] at this ⊢
      exact this.trans hmono
    · intro _
      obtain ⟨c, hc, hf⟩ := harr.file
      rw [hpath, ← hp, hc, ← hsrc]
      exact hf.length

theorem Good.own_entries (h : Good env w) (ho : Open w i x f) (e : TTResumeEntry)
    (he : HasEntry w.resumeIdx e) :
    (x.fileId = some e.fileId ∧ e.bytes ≤ x.got ∧
      ∃ e₀, HasEntry w.resumeIdx e₀ ∧ e₀.fileId = e.fileId ∧ e₀.path = e.path) ∨
    (HasEntry w.resumeIdx e ∧ x.fileId ≠ some e.fileId) := by
  by_cases hid : x.fileId = some e.fileId
  · exact .inl ⟨hid, (h.own i x f e ho he hid).2, e, he, rfl, rfl⟩
  · exact .inr ⟨he, hid⟩

theorem Good.flush (h : Good env w) (ho : Open w i x f) (k : ℕ) : Good env { w with
    disk := f.written w.disk k
    slots := Function.update w.slots i (some { x with fp := some (.writing (f.flushed k)) }) } := by
  obtain ⟨t, ht, ha⟩ := h.opened i x f ho
  obtain ⟨c, hc, hf⟩ := ha.file
  obtain ⟨c', hc', hf', hmono⟩ := filling_written hc hf k
  have harr : Arriving env (f.written w.disk k) t { x with fp := some (.writing (f.flushed k)) }
      (f.flushed k) :=
    ⟨⟨ha.receiving, ha.size, ha.src, ha.pos⟩, ha.accepted, ⟨c', hc', hf'⟩,
      ha.got.trans (flushed_got f k).symm⟩
  have hstep : Arrives env w i { x with fp := some (.writing (f.flushed k)) } (f.flushed k) t
      (f.written w.disk k) w.resumeIdx :=
    h.arrives ho rfl rfl rfl rfl rfl (fun p hp => written_of_ne hp k) harr
      (by rw [hc, hc']; exact hmono) h.unique (h.own_entries ho)
  have hgood := h.arrive hstep
  simp only [← ht, Function.update_eq_self] at hgood
  exact hgood

theorem flush_all {k : ℕ} (hk : f.buffer.length ≤ k) : (f.flushed k).buffer = [] := by
  simpa [OutFile.flushed] using hk

theorem Good.free (h : Good env w) {kept : ℕ} (hk : Kept w i kept) : Good env (w.xferFree i kept) := by
  cases hx : w.slots i with
  | none => simpa [xferFree, hx] using h
  | some x =>
    by_cases hw : ∃ f, x.fp = some (.writing f)
    · obtain ⟨f, hf⟩ := hw
      have hclosed : w.xferFree i kept = { w with
          disk := f.written w.disk kept
          slots := Function.update w.slots i none }.mark := by
        simp only [xferFree, hx, hf, fclose]
      have hg := h.flush ⟨hx, hf⟩ kept
      have := hg.seat (i := i) (s := none) (by simp) (by simp) ?_
      · rw [hclosed]
        simp only [Function.update_idem] at this
        exact this.mark
      · intro y g e ho he hid
        obtain ⟨t, -, ha⟩ := hg.opened i y g ho
        refine ha.backed hid (hg.own i y g e ho he hid).1 ?_
        obtain ⟨-, hy, hyf⟩ | ⟨hne, -⟩ := open_update ho
        · cases hy
          cases hyf
          exact hk x f ⟨hx, hf⟩ e he hid
        · exact absurd rfl hne
    · have hclosed : w.xferFree i kept = { w with slots := Function.update w.slots i none }.mark := by
        have hd : fclose w.disk kept x.fp = w.disk := by
          unfold fclose
          split
          · next f hf => exact absurd ⟨f, hf⟩ hw
          · rfl
        simp only [xferFree, hx, hd]
      rw [hclosed]
      refine (h.seat (by simp) (by simp) ?_).mark
      intro y f e ho
      have := ho.1.symm.trans hx
      cases this
      exact absurd ⟨f, ho.2⟩ hw

theorem free_slots (w : Xfers) (i j : Fin ttMaxXfers) (kept : ℕ) :
    (w.xferFree i kept).slots j = if j = i then none else w.slots j := by
  unfold xferFree
  split
  · next hx =>
    split
    · next hj => rw [hj, hx]
    · rfl
  · exact Function.update_apply _ _ _ _

theorem open_free {kept : ℕ} (ho : Open (w.xferFree i kept) j y g) : j ≠ i ∧ Open w j y g := by
  obtain ⟨hs, hf⟩ := ho
  rw [free_slots] at hs
  split at hs
  · cases hs
  · next hj => exact ⟨hj, hs, hf⟩

@[simp] theorem free_resumeIdx (w : Xfers) (i : Fin ttMaxXfers) (kept : ℕ) :
    (w.xferFree i kept).resumeIdx = w.resumeIdx := by
  unfold xferFree
  split <;> rfl

theorem flushed_pos (f : OutFile) (k : ℕ) : f.pos ≤ (f.flushed k).pos := Nat.le_add_right _ _

theorem Settled.kept (h : Settled w fun _ => False) (i : Fin ttMaxXfers) (kept : ℕ) : Kept w i kept := by
  intro x f ho e he hid
  exact (h i x f ho (fun h => h) e he hid).trans (flushed_pos f kept)

theorem kept_of_closed (hx : w.slots i = some x) (hw : ∀ f, x.fp ≠ some (.writing f)) (kept : ℕ) :
    Kept w i kept := by
  intro y f ho
  have := ho.1.symm.trans hx
  cases this
  exact absurd ho.2 (hw f)

theorem Good.failed (h : Good env w) {kept : ℕ} (hs : FailSaves x → Settled w fun _ => False) (hk : Kept w i kept) :
    Good env (w.xferFailed i x kept) := by
  unfold xferFailed
  split
  · next hc =>
    have hc : FailSaves x := by simpa [FailSaves, and_assoc] using hc
    have hkept : Kept (w.resumeSave.push (.failed x.fn x.id)) i kept := hk
    exact ((h.save (hs hc)).push _).free hkept
  · have hkept : Kept (w.push (.failed x.fn x.id)) i kept := hk
    exact (h.push _).free hkept

theorem Good.whole (h : Good env w) (hx : w.slots i = some x)
    (hr : ∀ f, x.fp = some (.writing f) → f.buffer = [] ∧ x.size ≤ x.got) :
    ∀ r ∈ w.receipt x, r.content = some r.src := by
  intro r hmem
  unfold Xfers.receipt at hmem
  split at hmem
  · next f t hf ht =>
    rw [List.mem_singleton] at hmem
    subst hmem
    obtain ⟨t', ht', ha⟩ := h.opened i x f ⟨hx, hf⟩
    rw [ht] at ht'
    cases ht'
    obtain ⟨c, hc, hfill⟩ := ha.file
    obtain ⟨hnil, hgot⟩ := hr f hf
    rw [hnil] at hfill
    have hpos : f.pos = x.got := by
      rw [ha.got, hnil]
      rfl
    have : c = t.src := hfill.whole (by rw [ha.size, hpos]; exact hgot)
    rw [← this]
    exact hc
  · simp at hmem

theorem Good.done (h : Good env w) {kept : ℕ} (hx : w.slots i = some x)
    (hr : ∀ f, x.fp = some (.writing f) → f.buffer = [] ∧ x.size ≤ x.got)
    (hs : x.fileId.isSome = true → Settled w fun j => j = i) : Good env (w.xferDone i x kept) := by
  have hw := h.whole hx hr
  unfold xferDone
  cases hid : x.fileId with
  | none =>
    dsimp only
    apply ((h.push (.done x.fn x.id x.path)).certify hw).free
    intro y f ho e _ hy
    have heq := ho.1.symm.trans hx
    cases heq
    rw [hid] at hy
    cases hy
  | some id =>
    dsimp only
    have hdel : ∀ e, HasEntry (ttResumeDel w.resumeIdx id) e → HasEntry w.resumeIdx e ∧ e.fileId ≠ id :=
      fun e he => he.del h.unique
    have hsettled : Settled (w.setResumeIdx (ttResumeDel w.resumeIdx id)) fun _ => False := by
      intro j y f ho _ e he hy
      by_cases hj : j = i
      · subst hj
        have heq := ho.1.symm.trans hx
        cases heq
        rw [hid] at hy
        exact absurd (Option.some.inj hy).symm (hdel e he).2
      · exact hs (by rw [hid]; rfl) j y f ho hj e (hdel e he).1 hy
    have hg := (h.forget (h.unique.del id) fun e he => (hdel e he).1).save hsettled
    have hkept : Kept (((w.setResumeIdx (ttResumeDel w.resumeIdx id)).resumeSave.push
        (.done x.fn x.id x.path)).certify (w.receipt x)) i kept := hsettled.kept i kept
    exact ((hg.push _).certify hw).free hkept

theorem Good.closed (h : Good env w) (hx : w.slots i = some x)
    (hw : ∀ f, x.fp ≠ some (.writing f)) : Closed env w x := by
  cases hs : x.sending with
  | true => exact .inl ⟨hs, h.sends i x hx hs⟩
  | false => exact .inr (h.offered i x hx hs hw)

theorem Good.note (h : Good env w) (hx : w.slots i = some x) (n : ℕ) :
    Good env (w.setSlot i { x with gotPrev := n }) := by
  by_cases hw : ∃ f, x.fp = some (.writing f)
  · obtain ⟨f, hf⟩ := hw
    obtain ⟨t, ht, ha⟩ := h.opened i x f ⟨hx, hf⟩
    have hstep : Arrives env w i { x with gotPrev := n } f t w.disk w.resumeIdx :=
      h.arrives ⟨hx, hf⟩ rfl rfl rfl hf rfl (fun _ _ => rfl)
        ⟨⟨ha.receiving, ha.size, ha.src, ha.pos⟩, ha.accepted, ha.file, ha.got⟩ le_rfl h.unique
        (h.own_entries ⟨hx, hf⟩)
    have hgood := h.arrive hstep
    simp only [← ht, Function.update_eq_self] at hgood
    exact hgood
  · push Not at hw
    refine h.seat ?_ ?_ ?_
    · intro y hy
      cases hy
      have hkey : OwnKey w i x := h.ownKey hx
      exact hkey
    · intro y hy
      cases hy
      obtain hp | ⟨t, ht, ho⟩ := h.closed hx hw
      · exact .inl hp
      · exact .inr ⟨t, ht, ⟨ho.receiving, ho.size, ho.src, ho.pos⟩, ho.unopened, ho.got, ho.still⟩
    · intro y g e ho
      have := ho.1.symm.trans hx
      cases this
      exact absurd ho.2 (hw g)

theorem Good.progress (h : Good env w) (hx : w.slots i = some x)
    (hs : x.sending = false → x.fileId.isSome = true →
      (x.size ≤ x.got ∨ x.got / xferStep ≠ x.gotPrev / xferStep) → Settled w fun _ => False) :
    Good env (w.xferProgress i x) := by
  unfold xferProgress
  split
  · exact h
  · next hemit =>
    have hg := h.note hx x.got
    dsimp only
    split
    · next hsave =>
      refine (hg.save ?_).push _
      have hsave : x.sending = false ∧ x.fileId.isSome = true := by simpa using hsave
      have hset := hs hsave.1 hsave.2 (by
        by_contra hno
        push Not at hno
        exact hemit hno)
      intro j y g ho hc e he
      obtain ⟨rfl, hy, hf⟩ | ⟨-, ho⟩ := open_update (w := w) ho
      · cases hy
        exact hset j x g ⟨hx, hf⟩ hc e he
      · exact hset j y g ho hc e he
    · exact hg.push _

end TkTox.Xfers
