import TkTox.ReceiveCondition

/-!
The invariant of received files: which bytes of a file are where, and which receive is behind an
entry of the index.
-/

namespace TkTox.Xfers

open PartialFile

structure Backed (env : XferEnv) (disk : Disk) (e : TTResumeEntry) : Prop where
  bytes : e.bytes ≤ correctBytes (env.file e.fileId) (disk e.path)
  length : 0 < e.bytes → ((disk e.path).getD []).length ≤ (env.file e.fileId).length

structure Expects (env : XferEnv) (t : Incoming) (x : TTXfer) : Prop where
  receiving : x.sending = false
  size : t.src.length = x.size
  src : ∀ id, x.fileId = some id → t.src = env.file id
  pos : t.pos = x.got

structure Arriving (env : XferEnv) (disk : Disk) (t : Incoming) (x : TTXfer) (f : OutFile) :
    Prop extends Expects env t x where
  accepted : x.accepted = true
  file : ∃ c, disk f.path = some c ∧ Filling t.src c f.pos f.buffer
  got : x.got = f.pos + f.buffer.length

structure Offering (env : XferEnv) (t : Incoming) (x : TTXfer) : Prop extends Expects env t x where
  unopened : x.fp = none
  got : x.got = 0
  still : t.running = false

/-- What a thread can start on after a crash. -/
structure Sound (env : XferEnv) (r : Remains) : Prop where
  unique : UniqueIds r.rsum
  backed : ∀ e ∈ r.rsum, Backed env r.disk e
  share : ∀ e ∈ r.rsum, ∀ e' ∈ r.rsum, e.path = e'.path → 0 < e.bytes → 0 < e'.bytes → e.fileId = e'.fileId
  receipts : ∀ r' ∈ r.receipts, r'.content = some r'.src

structure Good (env : XferEnv) (w : Xfers) : Prop where
  keys : ∀ i j x y, w.slots i = some x → w.slots j = some y → x.fn = y.fn →
    x.fileNumber = y.fileNumber → i = j
  sends : ∀ i x, w.slots i = some x → x.sending = true → ∃ p, x.fp = some (.reading p)
  offered : ∀ i x, w.slots i = some x → x.sending = false → (∀ f, x.fp ≠ some (.writing f)) →
    ∃ t, w.incoming (x.fn, x.fileNumber) = some t ∧ Offering env t x
  opened : ∀ i x f, Open w i x f →
    ∃ t, w.incoming (x.fn, x.fileNumber) = some t ∧ Arriving env w.disk t x f
  alone : ∀ i j x y f g, Open w i x f → Open w j y g → i ≠ j →
    f.path ≠ g.path ∧ ∀ id, x.fileId = some id → y.fileId ≠ some id
  unique : UniqueIds w.resumeIdx
  uniqueSaved : UniqueIds w.rsum
  own : ∀ i x f e, Open w i x f → HasEntry w.resumeIdx e → x.fileId = some e.fileId →
    e.path = f.path ∧ e.bytes ≤ x.got
  idle : ∀ e, HasEntry w.resumeIdx e → (∀ i x f, Open w i x f → x.fileId ≠ some e.fileId) →
    Backed env w.disk e
  saved : ∀ e ∈ w.rsum, Backed env w.disk e
  share : ∀ e e', Known w e → Known w e' → e.path = e'.path → 0 < e.bytes → 0 < e'.bytes →
    e.fileId = e'.fileId
  claims : ∀ i x f e, Open w i x f → Known w e → e.path = f.path → 0 < e.bytes →
    x.fileId = some e.fileId
  receipts : ∀ r ∈ w.receipts, r.content = some r.src
  moments : ∀ r ∈ w.moments, Sound env r

variable {env : XferEnv} {w : Xfers} {i j : Fin ttMaxXfers} {x y : TTXfer} {f g : OutFile}
  {e : TTResumeEntry} {t : Incoming} {disk : Disk}

theorem Good.intact (h : Good env w) : Intact env w := ⟨h.receipts, fun e he => (h.saved e he).bytes⟩

theorem Good.sound (h : Good env w) : Sound env w.remains where
  unique := h.uniqueSaved
  backed := h.saved
  share e he e' he' := h.share e e' (.inr he) (.inr he')
  receipts := h.receipts

theorem Good.mark (h : Good env w) : Good env w.mark := by
  refine { h with moments := ?_ }
  intro r hr
  obtain hr | hr := List.mem_append.mp hr
  · exact h.moments r hr
  · rw [List.mem_singleton.mp hr]
    exact h.sound

theorem backed_zero (h : e.bytes = 0) : Backed env disk e := by
  constructor
  · omega
  · omega

theorem Backed.congr (h : Backed env disk e) {disk' : Disk} (hd : disk' e.path = disk e.path) :
    Backed env disk' e := by
  constructor
  · rw [hd]
    exact h.bytes
  · rw [hd]
    exact h.length

theorem Arriving.backed (h : Arriving env disk t x f) (hid : x.fileId = some e.fileId)
    (hp : e.path = f.path) (hb : e.bytes ≤ f.pos) : Backed env disk e := by
  obtain ⟨c, hc, hf⟩ := h.file
  have hsrc := h.src _ hid
  constructor
  · rw [hp, hc, correctBytes, ← hsrc]
    exact hb.trans hf.reached
  · intro _
    rw [hp, hc, ← hsrc]
    exact hf.length

theorem open_update {s : Option TTXfer} (h : Open { w with slots := Function.update w.slots i s } j y g) :
    (j = i ∧ s = some y ∧ y.fp = some (.writing g)) ∨ (j ≠ i ∧ Open w j y g) := by
  obtain ⟨hs, hf⟩ := h
  dsimp only at hs
  by_cases hj : j = i
  · subst hj
    rw [Function.update_self] at hs
    exact .inl ⟨rfl, hs, hf⟩
  · rw [Function.update_of_ne hj] at hs
    exact .inr ⟨hj, hs, hf⟩

theorem slot_update {s : Option TTXfer} (h : Function.update w.slots i s j = some y) :
    (j = i ∧ s = some y) ∨ (j ≠ i ∧ w.slots j = some y) := by
  by_cases hj : j = i
  · subst hj
    rw [Function.update_self] at h
    exact .inl ⟨rfl, h⟩
  · rw [Function.update_of_ne hj] at h
    exact .inr ⟨hj, h⟩

def OwnKey (w : Xfers) (i : Fin ttMaxXfers) (x : TTXfer) : Prop :=
  ∀ j y, j ≠ i → w.slots j = some y → (y.fn, y.fileNumber) ≠ (x.fn, x.fileNumber)

theorem Good.ownKey (h : Good env w) (hx : w.slots i = some x) : OwnKey w i x := by
  intro j y hj hy heq
  simp only [Prod.mk.injEq] at heq
  exact hj (h.keys j i y x hy hx heq.1 heq.2)

theorem Good.keys_update (h : Good env w) {s : Option TTXfer} (hkey : ∀ x ∈ s, OwnKey w i x)
    {j k : Fin ttMaxXfers} {x y : TTXfer} (hj : Function.update w.slots i s j = some x)
    (hk : Function.update w.slots i s k = some y) (hfn : x.fn = y.fn)
    (hnum : x.fileNumber = y.fileNumber) : j = k := by
  obtain ⟨hji, hs⟩ | ⟨hji, hj'⟩ := slot_update hj <;> obtain ⟨hki, hs'⟩ | ⟨hki, hk'⟩ := slot_update hk
  · rw [hji, hki]
  · exact absurd (by rw [hfn, hnum]) (hkey x hs k y hki hk')
  · exact absurd (by rw [hfn, hnum]) (hkey y hs' j x hji hj')
  · exact h.keys j k x y hj' hk' hfn hnum

section Arrive

variable {disk' : Disk} {idx' : List TTResumeEntry}

structure Arrives (env : XferEnv) (w : Xfers) (i : Fin ttMaxXfers) (x : TTXfer) (f : OutFile)
    (t : Incoming) (disk' : Disk) (idx' : List TTResumeEntry) : Prop where
  key : OwnKey w i x
  unshared : ∀ j y g, j ≠ i → Open w j y g →
    g.path ≠ f.path ∧ ∀ id, x.fileId = some id → y.fileId ≠ some id
  fp : x.fp = some (.writing f)
  disk : ∀ p, p ≠ f.path → disk' p = w.disk p
  arriving : Arriving env disk' t x f
  unique : UniqueIds idx'
  entries : ∀ e, HasEntry idx' e →
    (x.fileId = some e.fileId ∧ e.path = f.path ∧ e.bytes ≤ x.got) ∨
      (HasEntry w.resumeIdx e ∧ x.fileId ≠ some e.fileId)
  before : ∀ y g, Open w i y g → y.fileId = x.fileId
  claims : ∀ e, Known w e → e.path = f.path → 0 < e.bytes → x.fileId = some e.fileId
  saved : ∀ e ∈ w.rsum, e.path = f.path → 0 < e.bytes → Backed env disk' e

theorem Arrives.backed (ha : Arrives env w i x f t disk' idx') (hk : Known w e)
    (hb : Backed env w.disk e) (hid : e.path = f.path → x.fileId ≠ some e.fileId) :
    Backed env disk' e := by
  by_cases hp : e.path = f.path
  · refine backed_zero (Nat.eq_zero_of_not_pos ?_)
    intro hpos
    exact hid hp (ha.claims e hk hp hpos)
  · exact hb.congr (ha.disk _ hp)

theorem Good.arrive (h : Good env w) (ha : Arrives env w i x f t disk' idx') :
    Good env { w with
      disk := disk'
      slots := Function.update w.slots i (some x)
      incoming := Function.update w.incoming (x.fn, x.fileNumber) (some t)
      resumeIdx := idx' } := by
  have hopen : ∀ {j y g}, Open { w with
      disk := disk'
      slots := Function.update w.slots i (some x)
      incoming := Function.update w.incoming (x.fn, x.fileNumber) (some t)
      resumeIdx := idx' } j y g → (j = i ∧ y = x ∧ g = f) ∨ (j ≠ i ∧ Open w j y g) := by
    intro j y g ho
    obtain ⟨hj, hs, hf⟩ | hold := open_update (w := w) ho
    · cases hs
      rw [ha.fp] at hf
      cases hf
      exact .inl ⟨hj, rfl, rfl⟩
    · exact .inr hold
  have hinc : ∀ {j y}, j ≠ i → w.slots j = some y →
      Function.update w.incoming (x.fn, x.fileNumber) (some t) (y.fn, y.fileNumber) =
        w.incoming (y.fn, y.fileNumber) :=
    fun hj hy => Function.update_of_ne (ha.key _ _ hj hy) _ _
  have hknown : ∀ {e}, HasEntry idx' e ∨ e ∈ w.rsum →
      (x.fileId = some e.fileId ∧ e.path = f.path) ∨ Known w e := by
    intro e he
    obtain he | he := he
    · obtain ⟨hid, hp, -⟩ | ⟨hold, -⟩ := ha.entries e he
      · exact .inl ⟨hid, hp⟩
      · exact .inr (.inl hold)
    · exact .inr (.inr he)
  constructor
  case keys =>
    intro j k y z hj hk hfn hnum
    exact h.keys_update (fun y hy => by cases hy; exact ha.key) hj hk hfn hnum
  case sends =>
    intro j y hy hs
    dsimp only at hy
    obtain ⟨-, hy⟩ | ⟨-, hy⟩ := slot_update hy
    · cases hy
      exact absurd ha.arriving.receiving (by simp [hs])
    · exact h.sends j y hy hs
  case offered =>
    intro j y hy hs hf
    dsimp only at hy
    obtain ⟨-, hy⟩ | ⟨hj, hy⟩ := slot_update hy
    · cases hy
      exact absurd ha.fp (hf f)
    · dsimp only
      rw [hinc hj hy]
      exact h.offered j y hy hs hf
  case opened =>
    intro j y g ho
    obtain ⟨rfl, rfl, rfl⟩ | ⟨hj, ho⟩ := hopen ho
    · exact ⟨t, Function.update_self _ _ _, ha.arriving⟩
    · obtain ⟨t', ht', harr⟩ := h.opened j y g ho
      refine ⟨t', ?_, harr.toExpects, harr.accepted, ?_, harr.got⟩
      · dsimp only
        rw [hinc hj ho.1, ht']
      · dsimp only
        rw [ha.disk _ (ha.unshared j y g hj ho).1]
        exact harr.file
  case alone =>
    intro j k y z g g' hj hk hjk
    obtain ⟨hji, rfl, rfl⟩ | ⟨hji, hj'⟩ := hopen hj <;>
      obtain ⟨hki, rfl, rfl⟩ | ⟨hki, hk'⟩ := hopen hk
    · exact absurd (hji.trans hki.symm) hjk
    · obtain ⟨hp, hid⟩ := ha.unshared k z g' hki hk'
      exact ⟨hp.symm, hid⟩
    · obtain ⟨hp, hid⟩ := ha.unshared j y g hji hj'
      exact ⟨hp, fun id hy hx => hid id hx hy⟩
    · exact h.alone j k y z g g' hj' hk' hjk
  case unique => exact ha.unique
  case uniqueSaved => exact h.uniqueSaved
  case own =>
    intro j y g e ho he hid
    obtain ⟨rfl, rfl, rfl⟩ | ⟨hj, ho⟩ := hopen ho
    · obtain ⟨-, hp, hb⟩ | ⟨-, hne⟩ := ha.entries e he
      · exact ⟨hp, hb⟩
      · exact absurd hid hne
    · obtain ⟨hx, -, -⟩ | ⟨hold, -⟩ := ha.entries e he
      · exact absurd hid ((ha.unshared j y g hj ho).2 _ hx)
      · exact h.own j y g e ho hold hid
  case idle =>
    intro e he hno
    obtain ⟨hid, -, -⟩ | ⟨hold, hne⟩ := ha.entries e he
    · exact absurd hid (hno i x f ⟨Function.update_self _ _ _, ha.fp⟩)
    · refine ha.backed (.inl hold) (h.idle e hold ?_) fun _ => hne
      intro j y g ho
      by_cases hj : j = i
      · subst hj
        rw [ha.before y g ho]
        exact hne
      · refine hno j y g ⟨?_, ho.2⟩
        dsimp only
        rw [Function.update_of_ne hj]
        exact ho.1
  case saved =>
    intro e he
    by_cases hp : e.path = f.path
    · by_cases hpos : 0 < e.bytes
      · exact ha.saved e he hp hpos
      · exact backed_zero (Nat.eq_zero_of_not_pos hpos)
    · exact (h.saved e he).congr (ha.disk _ hp)
  case share =>
    intro e e' he he' hp hpos hpos'
    obtain ⟨hid, hf⟩ | hk := hknown he <;> obtain ⟨hid', hf'⟩ | hk' := hknown he'
    · rw [hid] at hid'
      exact Option.some.inj hid'
    · have := ha.claims e' hk' (hp ▸ hf) hpos'
      rw [hid] at this
      exact Option.some.inj this
    · have := ha.claims e hk (hp ▸ hf') hpos
      rw [hid'] at this
      exact (Option.some.inj this).symm
    · exact h.share e e' hk hk' hp hpos hpos'
  case claims =>
    intro j y g e ho he hp hpos
    obtain ⟨rfl, rfl, rfl⟩ | ⟨hj, ho⟩ := hopen ho <;> obtain ⟨hid, hf⟩ | hk := hknown he
    · exact hid
    · exact ha.claims e hk hp hpos
    · exact absurd (hp.symm.trans hf) (ha.unshared j y g hj ho).1
    · exact h.claims j y g e ho hk hp hpos
  case receipts => exact h.receipts
  case moments => exact h.moments

end Arrive

end TkTox.Xfers
