import TkTox.ReceiveAnswers

/-!
A chunk of a received file keeps the invariant of received files, whatever the C library answers, and
so does everything about a send.
-/

namespace TkTox.Xfers

open PartialFile

variable {env : XferEnv} {w : Xfers} {i j : Fin ttMaxXfers} {x y : TTXfer} {f g : OutFile}
  {e : TTResumeEntry} {t : Incoming} {disk : Disk} {a : StdioAns}

theorem fwrite_filling {src c data : Bytes} {n : ℕ} (hc : disk f.path = some c)
    (hf : Filling src c f.pos f.buffer)
    (hd : data = (src.drop (f.pos + f.buffer.length)).take n) (a : StdioAns) :
    (fwrite disk f data a).2.path = f.path ∧
      (∀ p, p ≠ f.path → (fwrite disk f data a).1 p = disk p) ∧
      (fwrite disk f data a).2.pos + (fwrite disk f data a).2.buffer.length =
        f.pos + f.buffer.length + (data.take a.took).length ∧
      ∃ c', (fwrite disk f data a).1 f.path = some c' ∧
        Filling src c' (fwrite disk f data a).2.pos (fwrite disk f data a).2.buffer ∧
        common c src ≤ common c' src := by
  unfold fwrite
  split
  · next hnil =>
    rw [hnil, List.take_nil]
    exact ⟨rfl, fun _ _ => rfl, rfl, c, hc, hf, le_rfl⟩
  · have hdata : data.take a.took = (src.drop (f.pos + f.buffer.length)).take (data.take a.took).length := by
      apply List.prefix_iff_eq_take.mp
      apply (List.take_prefix _ _).trans
      rw [hd]
      exact List.take_prefix _ _
    let g : OutFile := { f with buffer := f.buffer ++ data.take a.took }
    obtain ⟨c', hc', hf', hmono⟩ := filling_written (f := g) hc (hf.write hdata) a.k
    refine ⟨rfl, fun p hp => written_of_ne (f := g) hp a.k, ?_, c', hc', hf', hmono⟩
    have := flushed_got g a.k
    simp only [g, List.length_append] at this ⊢
    omega

theorem setBytes_entries (h : Good env w) (x : TTXfer) (n : ℕ) (e : TTResumeEntry)
    {idx : List TTResumeEntry} (hidx : idx = match x.fileId with
      | some id => ttResumeSetBytes w.resumeIdx id n
      | none => w.resumeIdx) (he : HasEntry idx e) :
    (x.fileId = some e.fileId ∧ e.bytes = n ∧
      ∃ e₀, HasEntry w.resumeIdx e₀ ∧ e₀.fileId = e.fileId ∧ e₀.path = e.path) ∨
    (HasEntry w.resumeIdx e ∧ x.fileId ≠ some e.fileId) := by
  subst hidx
  cases hid : x.fileId with
  | none =>
    rw [hid] at he
    exact .inr ⟨he, by simp⟩
  | some id =>
    rw [hid] at he
    obtain ⟨e₀, he₀, hid₀, rfl⟩ | ⟨hold, hne⟩ := he.setBytes h.unique
    · exact .inl ⟨by rw [hid₀], rfl, e₀, he₀, rfl, rfl⟩
    · exact .inr ⟨hold, fun heq => hne (Option.some.inj heq).symm⟩

theorem fwrite_arrives (h : Good env w) (ho : Open w i x f)
    (ht : w.incoming (x.fn, x.fileNumber) = some t) {n : ℕ} {data : Bytes}
    (hdata : (t.src.drop t.pos).take n = data) {idx : List TTResumeEntry} (hu : UniqueIds idx)
    (hent : ∀ e, HasEntry idx e →
      (x.fileId = some e.fileId ∧ e.bytes ≤ x.got + (data.take a.took).length ∧
        ∃ e₀, HasEntry w.resumeIdx e₀ ∧ e₀.fileId = e.fileId ∧ e₀.path = e.path) ∨
      (HasEntry w.resumeIdx e ∧ x.fileId ≠ some e.fileId)) :
    Arrives env w i
      { x with got := x.got + (data.take a.took).length, fp := some (.writing (fwrite w.disk f data a).2) }
      (fwrite w.disk f data a).2 { t with pos := t.pos + (data.take a.took).length } (fwrite w.disk f data a).1
      idx := by
  obtain ⟨t', ht', ha⟩ := h.opened i x f ho
  rw [ht] at ht'
  cases ht'
  obtain ⟨c, hc, hf⟩ := ha.file
  have hpos : t.pos = f.pos + f.buffer.length := ha.pos.trans ha.got
  have hd : data = (t.src.drop (f.pos + f.buffer.length)).take n := by rw [← hdata, hpos]
  obtain ⟨hp, hother, hsum, c', hc', hf', hmono⟩ := fwrite_filling hc hf hd a
  refine h.arrives ho rfl rfl rfl rfl hp hother ?_ ?_ hu hent
  · refine ⟨⟨ha.receiving, ha.size, ha.src, ?_⟩, ha.accepted, ⟨c', ?_, hf'⟩, ?_⟩
    · change t.pos + (data.take a.took).length = x.got + (data.take a.took).length
      rw [ha.pos]
    · rw [hp]
      exact hc'
    · change x.got + (data.take a.took).length = _
      rw [hsum, ha.got]
  · rw [hc, hc']
    exact hmono

theorem chunk_arrives (h : Good env w) (ho : Open w i x f)
    (ht : w.incoming (x.fn, x.fileNumber) = some t) {n : ℕ} {data : Bytes}
    (hdata : (t.src.drop t.pos).take n = data) (htook : data.length ≤ a.took) {idx : List TTResumeEntry}
    (hidx : idx = match x.fileId with
      | some id => ttResumeSetBytes w.resumeIdx id (x.got + data.length)
      | none => w.resumeIdx) :
    Arrives env w i
      { x with got := x.got + data.length, fp := some (.writing (fwrite w.disk f data a).2) }
      (fwrite w.disk f data a).2 { t with pos := t.pos + data.length } (fwrite w.disk f data a).1
      idx := by
  have hall : (data.take a.took).length = data.length := by rw [List.length_take, Nat.min_eq_right htook]
  have hu : UniqueIds idx := by
    subst hidx
    split
    · exact h.unique.setBytes _ _
    · exact h.unique
  have harr := fwrite_arrives (a := a) h ho ht hdata hu fun e he => by
    obtain ⟨hid, hb, hold⟩ | hold := setBytes_entries h x _ e hidx he
    · exact .inl ⟨hid, by rw [hb, hall], hold⟩
    · exact .inr hold
  rw [hall] at harr
  exact harr

theorem chunk_settled (h : Good env w) (hx : Open w i x f) {closed : Fin ttMaxXfers → Prop} {x' : TTXfer} {w' : Xfers} {n : ℕ}
    (hslots : w'.slots = Function.update w.slots i (some x'))
    (hidx : w'.resumeIdx = match x.fileId with
      | some id => ttResumeSetBytes w.resumeIdx id n
      | none => w.resumeIdx) (hid : x'.fileId = x.fileId)
    (hown : ∀ g, x'.fp = some (.writing g) → closed i ∨
      ((∃ e, HasEntry w.resumeIdx e ∧ x.fileId = some e.fileId) → n ≤ g.pos))
    (hs : Settled w fun j => j = i) : Settled w' closed := by
  intro j y g ho hcl e he hy
  have ho : Open { w with slots := Function.update w.slots i (some x') } j y g := by
    rw [← hslots]
    exact ho
  rw [hidx] at he
  obtain ⟨hxe, hb, e₀, he₀, hid₀, -⟩ | ⟨hold, hne⟩ := setBytes_entries h x n e rfl he
  · obtain ⟨rfl, hx', hf⟩ | ⟨hj, ho⟩ := open_update (w := w) ho
    · cases hx'
      obtain hcl' | hn := hown g hf
      · exact absurd hcl' hcl
      · rw [hb]
        exact hn ⟨e₀, he₀, by rw [hid₀]; exact hxe⟩
    · exact absurd hxe ((h.alone j i y x g f ho hx hj).2 _ hy)
  · obtain ⟨rfl, hx', hf⟩ | ⟨hj, ho⟩ := open_update (w := w) ho
    · cases hx'
      rw [hid] at hy
      exact absurd hy hne
    · exact hs j y g ho hj e hold hy

theorem covered_idx (h : Good env w) {n : ℕ} {y : TTXfer} (hid : y.fileId = x.fileId) {w' : Xfers}
    (hw : w'.resumeIdx = match x.fileId with
      | some id => ttResumeSetBytes w.resumeIdx id (x.got + n)
      | none => w.resumeIdx) {pos : ℕ}
    (hn : (∃ e, HasEntry w.resumeIdx e ∧ x.fileId = some e.fileId) → x.got + n ≤ pos) : Covered w' y pos := by
  intro e he hy
  rw [hw] at he
  rw [hid] at hy
  obtain ⟨hxe, hb, e₀, he₀, hid₀, -⟩ | ⟨-, hne⟩ := setBytes_entries h x _ e rfl he
  · rw [hb]
    exact hn ⟨e₀, he₀, by rw [hid₀]; exact hxe⟩
  · exact absurd hy hne

theorem failed_congr (w : Xfers) (i : Fin ttMaxXfers) (x : TTXfer) (kept : ℕ) {x' x'' : TTXfer} (hfp : x'.fp = x''.fp) :
    (w.setSlot i x').xferFailed i x kept = (w.setSlot i x'').xferFailed i x kept := by
  unfold xferFailed
  split
  · simp [xferFree, setSlot, resumeSave, mark, push, remains, hfp]
  · simp [xferFree, setSlot, mark, push, remains, hfp]

theorem failed_setIncoming (w : Xfers) (i : Fin ttMaxXfers) (x : TTXfer) (kept fn num : ℕ) (t : Option Incoming) :
    ((w.setIncoming fn num t).xferFailed i x kept).setIncoming fn num none =
      (w.xferFailed i x kept).setIncoming fn num none := by
  have h : (w.setIncoming fn num t).xferFailed i x kept =
      { w.xferFailed i x kept with incoming := Function.update w.incoming (fn, num) t } := failed_incoming w i x kept _
  rw [h]
  simp only [Xfers.setIncoming, failed_keeps_incoming, Function.update_idem]

theorem short_good (h : Good env w) (ho : Open w i x f) (ht : w.incoming (x.fn, x.fileNumber) = some t) {n : ℕ}
    {data : Bytes} (hdata : (t.src.drop t.pos).take n = data) (hshort : a.took < data.length)
    (hok : ChunkOk w i x f data a) (t' : Option Incoming) :
    Good env ((((({ w with disk := (fwrite w.disk f data a).1 }.setIncoming x.fn x.fileNumber t').setSlot i
      { x with fp := some (.writing (fwrite w.disk f data a).2) }).mark).toxFileCancel x.fn x.fileNumber).xferFailed i x
        a.kept) := by
  obtain ⟨hsave, hkept⟩ := hok.short hshort
  have hent : ∀ e, HasEntry w.resumeIdx e →
      (x.fileId = some e.fileId ∧ e.bytes ≤ x.got + (data.take a.took).length ∧
        ∃ e₀, HasEntry w.resumeIdx e₀ ∧ e₀.fileId = e.fileId ∧ e₀.path = e.path) ∨
      (HasEntry w.resumeIdx e ∧ x.fileId ≠ some e.fileId) := by
    intro e he
    obtain ⟨hid, hb, hold⟩ | hold := h.own_entries ho e he
    · exact .inl ⟨hid, hb.trans (Nat.le_add_right _ _), hold⟩
    · exact .inr hold
  let v (y : TTXfer) : Xfers := { w with
    disk := (fwrite w.disk f data a).1
    moments := w.moments ++ [{ w with disk := (fwrite w.disk f data a).1 }.remains] }.setSlot i y
  let x' : TTXfer := { x with
    got := x.got + (data.take a.took).length, fp := some (.writing (fwrite w.disk f data a).2) }
  have hg : Good env ((v x').setIncoming x.fn x.fileNumber
      (some { t with pos := t.pos + (data.take a.took).length })) :=
    (h.arrive (fwrite_arrives (a := a) h ho ht hdata h.unique hent)).mark
  have hslot : (v x').slots i = some x' := Function.update_self _ _ _
  have hfail : Good env (((v x').setIncoming x.fn x.fileNumber
      (some { t with pos := t.pos + (data.take a.took).length })).xferFailed i x a.kept) := by
    apply hg.failed
    · intro hf j y g hy _
      obtain ⟨hset, hcov⟩ := hsave hf
      obtain ⟨rfl, hs, hfp⟩ | ⟨hj, hold⟩ := open_update (w := w) hy
      · cases hs
        cases hfp
        exact hcov
      · exact hset j y g hold hj
    · intro y g hy
      have heq := hy.1.symm.trans hslot
      cases heq
      cases hy.2
      exact hkept
  have hdone := h.cancelled ho.1 hfail (fun j => by
    rw [failed_slots]
    split
    · rfl
    · next hj => exact Function.update_of_ne hj _ _) none
  have hcongr : (v { x with fp := some (.writing (fwrite w.disk f data a).2) }).xferFailed i x a.kept =
      (v x').xferFailed i x a.kept := failed_congr _ _ _ _ rfl
  rw [failed_setIncoming, ← hcongr, ← failed_setIncoming _ _ _ _ _ _ t', ← failed_cancel] at hdone
  exact hdone

theorem received_good (h : Good env w) (ho : Open w i x f)
    (hlost : x.size ≤ x.got → a.flush < f.buffer.length →
      Covered w x ((f.flushed a.flush).flushed a.kept).pos)
    (hdone : x.fileId.isSome = true → x.size ≤ x.got → f.buffer.length ≤ a.flush → Settled w fun j => j = i)
    (hprog : x.fileId.isSome = true → x.got < x.size → x.got / xferStep ≠ x.gotPrev / xferStep →
      Settled w fun _ => False) :
    Good env (if x.size ≤ x.got then
      if a.flush < f.buffer.length then
        (({ w with disk := f.written w.disk a.flush }.setSlot i
          { x with fp := some (.writing (f.flushed a.flush)) }).mark).xferFailed i
          { x with fp := some (.writing (f.flushed a.flush)) } a.kept
      else
        (({ w with disk := f.written w.disk a.flush }.setSlot i
          { x with fp := some (.writing (f.flushed a.flush)) }).mark).xferDone i
          { x with fp := some (.writing (f.flushed a.flush)) } a.kept
      else w.xferProgress i x) := by
  split
  · next hle =>
    have hg := (h.flush ho a.flush).mark
    split
    · next hshort =>
      apply hg.failed
      · intro hf
        exact absurd hf.2.2.2 (not_lt.mpr hle)
      · intro y g hy
        obtain ⟨-, hs, hfp⟩ | ⟨hj, -⟩ := open_update (w := w) hy
        · cases hs
          cases hfp
          exact hlost hle hshort
        · exact absurd rfl hj
    · next hall =>
      refine hg.done (Function.update_self _ _ _) ?_ ?_
      · intro g hf
        cases hf
        exact ⟨flush_all (not_lt.mp hall), hle⟩
      · intro hid j y g hg hj e he
        obtain ⟨rfl, -, -⟩ | ⟨-, hold⟩ := open_update (w := w) hg
        · exact absurd rfl hj
        · exact hdone hid hle (not_lt.mp hall) j y g hold hj e he
  · next hlt =>
    refine h.progress ho.1 ?_
    intro _ hid hcross
    exact hprog hid (by omega) (hcross.resolve_left hlt)

theorem chunk_good (h : Good env w) {fn num n : ℕ} (hc : Careful env w (.chunk fn num n a)) :
    Good env (step env w (.chunk fn num n a)) := by
  simp only [step]
  cases ht : w.incoming (fn, num) with
  | none => exact h
  | some t =>
    dsimp only
    split
    · exact h
    next hrun =>
    have hrun : t.running = true := by simpa using hrun
    generalize hdata : (t.src.drop t.pos).take n = data
    generalize ht' : ({ t with pos := t.pos + data.length } : Incoming) = t'
    unfold cbFileRecvChunk
    cases hfind : w.xferFind fn num with
    | none =>
      rw [show (w.setIncoming fn num (some t')).xferFind fn num = none from hfind]
      exact h.setIncoming _ fun i x hx _ => xferFind_none hfind hx
    | some i =>
      rw [show (w.setIncoming fn num (some t')).xferFind fn num = some i from hfind]
      obtain ⟨x, hx, rfl, rfl⟩ := xferFind_some hfind
      simp only [show (w.setIncoming x.fn x.fileNumber (some t')).slots i = some x from hx]
      split
      · next f hf =>
        have ho : Open w i x f := ⟨hx, hf⟩
        obtain ⟨t₀, ht₀, ha⟩ := h.opened i x f ho
        rw [ht] at ht₀
        cases ht₀
        have hlen : data.length ≤ t.src.length - t.pos := by
          rw [← hdata, ← List.length_drop]
          exact List.length_take_le' _ _
        have hle : x.got + data.length ≤ x.size := by
          obtain ⟨c, -, hfill⟩ := ha.file
          have := hfill.got_le
          have := ha.got
          have := ha.pos
          have := ha.size
          omega
        have hok := hc t i x f ht hrun hfind ho
        simp only [hdata] at hok
        rw [if_neg (by simp [ha.receiving, ha.accepted]), if_neg (by omega)]
        by_cases hshort : a.took < data.length
        · have hg := short_good h ho ht hdata hshort hok (some t')
          simp only [if_pos hshort]
          exact hg
        have htook : data.length ≤ a.took := not_lt.mp hshort
        simp only [if_neg hshort]
        have harr := chunk_arrives h ho ht hdata htook rfl
        rw [ht'] at harr
        have hg := (h.arrive harr).mark
        have hgo := received_good (a := a) hg (i := i) (f := (fwrite w.disk f data a).2)
          ⟨Function.update_self _ _ _, rfl⟩ ?_ ?_ ?_
        · cases hid : x.fileId with
          | none =>
            simp only [hid, setSlot, Xfers.setIncoming] at hgo ⊢
            exact hgo
          | some id =>
            simp only [hid, setSlot, Xfers.setIncoming, setResumeIdx] at hgo ⊢
            exact hgo
        · intro hge hlost
          have hw := hok.whole htook hge
          rw [if_pos hlost] at hw
          exact covered_idx (x := x) h rfl rfl hw
        · intro hid hge hall
          have hw := hok.whole htook hge
          rw [if_neg (not_lt.mpr hall)] at hw
          exact chunk_settled h ho rfl rfl rfl (fun _ _ => .inl rfl) (hw hid)
        · intro hid hlt hcross
          obtain ⟨hset, hpos⟩ := hok.crossing htook hlt hid hcross
          refine chunk_settled h ho rfl rfl rfl ?_ hset
          intro g hgf
          cases hgf
          exact .inr hpos
      · next hno =>
        -- a send's number is not received under, and nothing runs before the offer is accepted
        refine h.setIncoming _ ?_
        intro j y hy hrecv hkey
        simp only [Prod.mk.injEq] at hkey
        have := h.keys j i y x hy hx hkey.1 hkey.2
        subst this
        have := hy.symm.trans hx
        cases this
        obtain ⟨t₀, ht₀, hoff⟩ := h.offered j x hy hrecv hno
        rw [ht] at ht₀
        cases ht₀
        simp [hoff.still] at hrun

theorem not_failSaves (hs : x.sending = true) : ¬ FailSaves x := by
  intro hf
  simp [hf.1] at hs

theorem send_good (h : Good env w) {fn num : ℕ} {path : Bytes} {ok : Bool} :
    Good env (step env w (.send fn path num ok)) := by
  simp only [step]
  split
  · exact h
  next hfind =>
  have hnone : w.xferFind fn num = none := by simpa using hfind
  unfold handleCmdSendFile
  cases hd : w.disk path with
  | none => exact h.push _
  | some c =>
    cases ha : w.xferAlloc with
    | none => exact h
    | some i =>
      have hslot := alloc_free ha
      have hg := (h.seq (w.seq + 1)).seat (i := i) (s := some
        { id := w.seq + 1, fn := fn, fileNumber := num, sending := true, accepted := true,
          fp := some (.reading path), size := c.length, got := 0, gotPrev := 0,
          fileId := some (env.hash c), name := (baseName path).take toxMaxFilenameLength,
          path := path.take ttXferPathMax }) ?_ ?_ ?_
      · dsimp only
        split
        · exact hg.push _
        · exact hg.failed (fun hf => absurd hf (not_failSaves rfl)) (kept_of_closed (Function.update_self _ _ _) (by simp) 0)
      · intro y hy
        cases hy
        exact fun j z _ hz => xferFind_none hnone hz
      · intro y hy
        cases hy
        exact .inl ⟨rfl, path, rfl⟩
      · intro y g e ho
        exact absurd (hslot.symm.trans ho.1) (by simp)

theorem chunkRequest_good (h : Good env w) {fn num position length : ℕ} {ok : Bool}
    (hc : Careful env w (.chunkRequest fn num position length ok)) :
    Good env (step env w (.chunkRequest fn num position length ok)) := by
  simp only [step, cbFileChunkRequest]
  cases hfind : w.xferFind fn num with
  | none => exact h
  | some i =>
    obtain ⟨x, hx, rfl, rfl⟩ := xferFind_some hfind
    simp only [hx]
    split
    · next path hf =>
      split
      · exact h
      next hsend =>
      have hs : x.sending = true := by simpa using hsend
      have hno : ∀ f, x.fp ≠ some (.writing f) := by simp [hf]
      split
      · next hend =>
        refine h.done hx (fun f hw => absurd hw (hno f)) ?_
        intro _
        exact (hc i x hfind hx hs hend).mono fun j hj => hj.elim
      · split
        · exact h.failed_cancel hx (fun hfs => absurd hfs (not_failSaves hs)) (kept_of_closed hx hno 0)
        · generalize (((w.disk path).getD []).drop position).take (min length 4096) = buf
          have hg := h.seat (i := i) (s := some { x with got := position + buf.length }) ?_ ?_ ?_
          · split
            · refine hg.progress (Function.update_self _ _ _) ?_
              intro hrecv
              exact absurd hs (by simp [show x.sending = false from hrecv])
            · exact hg.failed (fun hfs => absurd hfs (not_failSaves hs))
                (kept_of_closed (x := { x with got := position + buf.length }) (Function.update_self _ _ _) hno 0)
          · intro y hy
            cases hy
            have hkey : OwnKey w i x := h.ownKey hx
            exact hkey
          · intro y hy
            cases hy
            exact .inl ⟨hs, path, hf⟩
          · intro y g e ho
            have := ho.1.symm.trans hx
            cases this
            exact absurd ho.2 (hno g)
    · exact h

end TkTox.Xfers
