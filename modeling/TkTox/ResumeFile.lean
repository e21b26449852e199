import Mathlib.Data.List.TakeWhile
import Mathlib.Data.Set.Card
import TkTox.OfflineQueue
import TkTox.ResumeIndex
import TkTox.Sidecar

/-!
The resume index as a finite map. Its file holds decimal lengths beside raw ids and paths, and
its cells move when one is deleted; through any mix of updates, saves and reloads, what a lookup
finds is what was put last.
-/

namespace TkTox

variable {T : ToxEncryptSave} {key : Option ToxPassKey} {idx : List TTResumeEntry}
  {id : FileId} {e e' : TTResumeEntry} {mem rest : Bytes}

def ttResumeMagic : Bytes := [84, 84, 82, 83, 49]

def rsumEntry (e : TTResumeEntry) : Bytes :=
  headerLine e.bytes e.path.length ++ e.path ++ 10 :: e.fileId.bytes

def rsumPlain (idx : List TTResumeEntry) : Bytes :=
  ttResumeMagic ++ (ttResumeSaved idx).flatMap rsumEntry

-- `file` is what was at the path before
def ttResumeSave (key : Option ToxPassKey) (idx : List TTResumeEntry) (file : Option Bytes) :
    Option Bytes :=
  (sidecarWriteUpTo sidecarMax key (rsumPlain idx)).or file

def rsumReadEntry (mem b : Bytes) : Option (TTResumeEntry × Bytes) :=
  match readHeader (2 ^ 32) mem b with
  | none => none
  | some (bytes, plen, b) =>
    if plen = 0 ∨ plen > ttResumePathMax then none
    else if b.length < plen then none
    else
      let path := b.take plen
      let b := b.drop plen
      if b.length = 0 ∨ b.getD 0 0 ≠ 10 then none
      else
        let b := b.drop 1
        if b.length < toxFileIdLength then none
        else some (⟨true, Blob.read _ b, cString path, bytes⟩, b.drop toxFileIdLength)

theorem rsumReadEntry_length {b : Bytes} (h : rsumReadEntry mem b = some (e, rest)) :
    rest.length < b.length := by
  unfold rsumReadEntry at h
  split at h
  · cases h
  · next hh =>
    have hlt := readHeader_length hh
    dsimp only at h
    split_ifs at h
    cases h
    simp only [List.length_drop]
    omega

def rsumReadAll (mem b : Bytes) (idx : List TTResumeEntry) : List TTResumeEntry :=
  if b.length = 0 then idx
  else
    match _h : rsumReadEntry mem b with
    | none => idx
    | some (e, rest) => if ttResumeMax ≤ idx.length then idx else rsumReadAll mem rest (idx ++ [e])
termination_by b.length
decreasing_by exact rsumReadEntry_length _h

def rsumBody (pt : Bytes) : Bytes :=
  if 5 ≤ pt.length ∧ pt.take 5 = ttResumeMagic then pt.drop 5 else pt

def ttResumeLoad (T : ToxEncryptSave) (key : Option ToxPassKey) (mem : Bytes) (file : Option Bytes) :
    List TTResumeEntry :=
  match file with
  | none => []
  | some buf =>
    if buf.length = 0 ∨ buf.length > sidecarMax then []
    else
      match sidecarDecrypt T key buf with
      | none => []
      | some pt => rsumReadAll mem (rsumBody pt) []

structure TTResumeEntry.WF (e : TTResumeEntry) : Prop where
  used : e.used = true
  path : e.path ≠ []
  text : 0 ∉ e.path
  fits : e.path.length ≤ ttResumePathMax
  bytes : e.bytes < 2 ^ 64

theorem rsumReadEntry_entry (he : e.WF) (mem rest : Bytes) :
    rsumReadEntry mem (rsumEntry e ++ rest) = some (e, rest) := by
  have hpos : e.path.length ≠ 0 := fun h => he.path (List.length_eq_zero_iff.mp h)
  have hfits := he.fits
  simp only [ttResumePathMax] at hfits
  have hsplit : rsumEntry e ++ rest =
      headerLine e.bytes e.path.length ++ (e.path ++ 10 :: (e.fileId.bytes ++ rest)) := by
    simp [rsumEntry]
  have htail : (10 :: (e.fileId.bytes ++ rest)).drop 1 = e.fileId.bytes ++ rest := rfl
  have hid : ¬ (e.fileId.bytes ++ rest).length < toxFileIdLength := by
    rw [List.length_append, Blob.bytes_length]
    omega
  unfold rsumReadEntry
  rw [hsplit, readHeader_header he.bytes (by omega), Nat.mod_eq_of_lt (by omega)]
  dsimp only
  rw [if_neg (by simp only [ttResumePathMax]; omega), if_neg (by simp), List.take_left, List.drop_left,
    if_neg (by simp), htail, if_neg hid, Blob.read_append, cString_eq_self_iff.mpr he.text,
    List.drop_left' e.fileId.bytes_length, ← he.used]

theorem rsumReadAll_entries (hwf : ∀ e ∈ idx, e.WF) (done : List TTResumeEntry)
    (hlen : done.length + idx.length ≤ ttResumeMax) :
    rsumReadAll mem (idx.flatMap rsumEntry) done = done ++ idx := by
  induction idx generalizing done with
  | nil =>
    rw [List.flatMap_nil, rsumReadAll, if_pos (by rfl), List.append_nil]
  | cons e idx ih =>
    have hread := rsumReadEntry_entry (hwf e (by simp)) mem (idx.flatMap rsumEntry)
    rw [List.length_cons] at hlen
    rw [List.flatMap_cons, rsumReadAll, if_neg (by simp [rsumEntry, headerLine])]
    split
    · next h =>
      rw [hread] at h
      cases h
    · next h =>
      rw [hread] at h
      cases h
      rw [if_neg (by omega), ih (fun e he => hwf e (by simp [he])) _ (by simp; omega)]
      simp

theorem rsumEntry_length_le (he : e.WF) : (rsumEntry e).length ≤ 1100 := by
  have hb := decimal_length_le (n := e.bytes) (k := 20) (by decide) (by have := he.bytes; omega)
  have hfits := he.fits
  simp only [ttResumePathMax] at hfits
  have hp := decimal_length_le (n := e.path.length) (k := 4) (by decide) (by omega)
  simp only [rsumEntry, headerLine, List.length_append, List.length_cons, List.length_nil,
    Blob.bytes_length, toxFileIdLength]
  omega

theorem ttResumeSaved_eq (hwf : ∀ e ∈ idx, e.WF) : ttResumeSaved idx = idx := by
  rw [ttResumeSaved, List.filter_eq_self]
  intro e he
  have h := hwf e he
  simp [h.used, h.path, h.fits]

theorem rsumPlain_length_le (hwf : ∀ e ∈ idx, e.WF) (hlen : idx.length ≤ ttResumeMax) :
    (rsumPlain idx).length ≤ 35205 := by
  have hsum (l : List TTResumeEntry) (hl : ∀ e ∈ l, e.WF) :
      (l.flatMap rsumEntry).length ≤ 1100 * l.length := by
    induction l with
    | nil => simp
    | cons e l ih =>
      have h1 := rsumEntry_length_le (hl e (by simp))
      have h2 := ih fun e he => hl e (by simp [he])
      rw [List.flatMap_cons, List.length_append, List.length_cons]
      omega
  have h := hsum idx hwf
  rw [rsumPlain, ttResumeSaved_eq hwf, List.length_append]
  simp only [ttResumeMagic, List.length_cons, List.length_nil, ttResumeMax] at hlen ⊢
  omega

theorem ttResumeLoad_save (hT : T.SparesPlain) (hk : ∀ k ∈ key, k.Invertible T)
    (hwf : ∀ e ∈ idx, e.WF) (hlen : idx.length ≤ ttResumeMax) (mem : Bytes) (file : Option Bytes) :
    ttResumeLoad T key mem (ttResumeSave key idx file) = idx := by
  have hsize := rsumPlain_length_le hwf hlen
  obtain ⟨buf, hw, hbuf, hdec⟩ := sidecar_round_trip sidecarMax (rsumPlain idx) hT hk
    ⟨_, rfl⟩ (by simp only [sidecarMax]; omega)
  have hpos : 5 ≤ (rsumPlain idx).length := by
    rw [rsumPlain, List.length_append]
    simp [ttResumeMagic]
  have hfit : ¬ (buf.length = 0 ∨ buf.length > sidecarMax) := by
    rw [hbuf, encryptedLength]
    cases key <;> simp only [Option.elim_none, Option.elim_some, sidecarMax,
      toxPassEncryptionExtraLength] <;> omega
  have hbody : rsumBody (rsumPlain idx) = idx.flatMap rsumEntry := by
    have htake : (rsumPlain idx).take 5 = ttResumeMagic := List.take_left' rfl
    rw [rsumBody, if_pos ⟨hpos, htake⟩, rsumPlain, ttResumeSaved_eq hwf]
    exact List.drop_left' rfl
  rw [ttResumeSave, hw, Option.some_or]
  simp only [ttResumeLoad]
  rw [if_neg hfit, hdec]
  dsimp only
  rw [hbody, rsumReadAll_entries hwf [] (by simpa using hlen), List.nil_append]

structure Filled (idx : List TTResumeEntry) : Prop where
  wf : ∀ e ∈ idx, e.WF
  unique : UniqueIds idx
  length_le : idx.length ≤ ttResumeMax

abbrev ResumeMap := FileId → Option (Bytes × ℕ)

def lookup (idx : List TTResumeEntry) : ResumeMap :=
  fun id => (ttResumeFind idx id).map fun e => (e.path, e.bytes)

theorem filled_nil : Filled [] := by
  refine ⟨fun e he => ?_, fun i j e e' hi => ?_, Nat.zero_le _⟩
  · cases he
  · cases hi

theorem Filled.find_iff (h : Filled idx) :
    ttResumeFind idx id = some e ↔ e ∈ idx ∧ e.fileId = id := by
  constructor
  · intro hf
    obtain ⟨he, hid⟩ := ttResumeFind_some hf
    exact ⟨he.1, hid⟩
  · rintro ⟨he, rfl⟩
    have hused := (h.wf e he).used
    cases hf : ttResumeFind idx e.fileId with
    | none =>
      have hn := List.find?_eq_none.mp hf e he
      simp [TTResumeEntry.holds, hused] at hn
    | some e' =>
      obtain ⟨he', hid⟩ := ttResumeFind_some hf
      rw [h.unique.entry_eq he' ⟨he, hused⟩ hid]

theorem Filled.lookup_iff (h : Filled idx) {v : Bytes × ℕ} :
    lookup idx id = some v ↔ ∃ e ∈ idx, e.fileId = id ∧ (e.path, e.bytes) = v := by
  rw [lookup, Option.map_eq_some_iff]
  constructor
  · rintro ⟨e, hf, hv⟩
    obtain ⟨he, hid⟩ := h.find_iff.mp hf
    exact ⟨e, he, hid, hv⟩
  · rintro ⟨e, he, hid, hv⟩
    exact ⟨e, h.find_iff.mpr ⟨he, hid⟩, hv⟩

theorem Filled.lookup_eq_none (h : Filled idx) : lookup idx id = none ↔ ∀ e ∈ idx, e.fileId ≠ id := by
  rw [Option.eq_none_iff_forall_ne_some]
  constructor
  · intro hn e he hid
    exact hn _ (h.lookup_iff.mpr ⟨e, he, hid, rfl⟩)
  · intro hn v hv
    obtain ⟨e, he, hid, -⟩ := h.lookup_iff.mp hv
    exact hn e he hid

def ResumeMap.ids (M : ResumeMap) : Set FileId := {id | M id ≠ none}

theorem Filled.nodup_ids (h : Filled idx) : (idx.map TTResumeEntry.fileId).Nodup := by
  rw [List.Nodup, List.pairwise_map]
  refine (uniqueIds_iff.mp h.unique).imp_of_mem fun he he' hne => ?_
  exact hne (h.wf _ he).used (h.wf _ he').used

theorem Filled.ncard_ids (h : Filled idx) : (ResumeMap.ids (lookup idx)).ncard = idx.length := by
  have hset : ResumeMap.ids (lookup idx) = ↑(idx.map TTResumeEntry.fileId).toFinset := by
    ext id
    rw [ResumeMap.ids, Set.mem_ofPred_eq, ne_eq, h.lookup_eq_none]
    simp
  rw [hset, Set.ncard_coe_finset, List.toFinset_card_of_nodup h.nodup_ids, List.length_map]

theorem lastUsedAfter_eq {i : ℕ} (y : TTResumeEntry) (hy : y.used = true) (hi : i ≤ idx.length) :
    lastUsedAfter ((idx ++ [y]).set i .zero) i = if i < idx.length then some idx.length else none := by
  rw [lastUsedAfter, List.length_set, List.length_append, List.length_singleton, List.range_succ,
    List.reverse_append, List.reverse_singleton, List.singleton_append]
  split_ifs with hlt
  · rw [List.find?_cons_of_pos]
    have hget : ((idx ++ [y]).set i .zero).getD idx.length .zero = y := by
      simp [List.getD, hlt.ne]
    rw [hget, hy]
    simpa using hlt
  · rw [List.find?_eq_none]
    intro j hj
    simp only [List.mem_cons, List.mem_reverse, List.mem_range] at hj
    simp only [Bool.and_eq_true, decide_eq_true_eq, not_and]
    omega

theorem ttResumeDel_perm {i : ℕ} (hused : ∀ e ∈ idx, e.used = true)
    (h : idx.findIdx? (fun e => e.holds id) = some i) : (ttResumeDel idx id).Perm (idx.eraseIdx i) := by
  obtain ⟨hlt, -⟩ := List.findIdx?_eq_some_iff_getElem.mp h
  simp only [ttResumeDel, h]
  obtain rfl | ⟨l, y, rfl⟩ := List.eq_nil_or_concat' idx
  · exact absurd hlt (Nat.not_lt_zero i)
  rw [List.length_append, List.length_singleton] at hlt
  rw [lastUsedAfter_eq y (hused y (by simp)) (by omega)]
  split_ifs with hi
  · -- the last cell takes the place of the deleted one
    have hget : ((l ++ [y]).set i .zero).getD l.length .zero = y := by
      simp [List.getD, hi.ne]
    dsimp only
    rw [hget, List.set_set, List.set_append_left _ _ hi, List.set_append_right _ _ (by simp),
      List.length_set, Nat.sub_self]
    rw [List.set_cons_zero, List.dropLast_concat, List.eraseIdx_append_of_lt_length hi]
    refine (List.set_perm_cons_eraseIdx hi y).trans ?_
    exact (List.perm_append_singleton y _).symm
  · have hil : i = l.length := by omega
    dsimp only
    rw [hil, List.set_append_right _ _ le_rfl, Nat.sub_self, List.set_cons_zero, List.dropLast_concat,
      List.eraseIdx_append_of_length_le le_rfl, Nat.sub_self]
    simp

theorem Filled.mem_del (h : Filled idx) (id : FileId) :
    e ∈ ttResumeDel idx id ↔ e ∈ idx ∧ e.fileId ≠ id := by
  have hused : ∀ e ∈ idx, e.used = true := fun e he => (h.wf e he).used
  cases hf : idx.findIdx? fun e => e.holds id with
  | none =>
    have hsame : ttResumeDel idx id = idx := by simp only [ttResumeDel, hf]
    rw [hsame]
    exact ⟨fun he => ⟨he, findIdx_none hf ⟨he, hused e he⟩⟩, And.left⟩
  | some i =>
    obtain ⟨e₀, h0, -, hid⟩ := findIdx_some hf
    have hperm := ttResumeDel_perm hused hf
    rw [hperm.mem_iff, List.mem_eraseIdx_iff_getElem?]
    constructor
    · rintro ⟨j, hj, hje⟩
      have he := List.mem_of_getElem? hje
      refine ⟨he, fun hid' => hj ?_⟩
      exact h.unique j i e e₀ hje h0 (hused e he) (hused e₀ (List.mem_of_getElem? h0))
        (hid'.trans hid.symm)
    · rintro ⟨he, hne⟩
      obtain ⟨j, hj⟩ := List.mem_iff_getElem?.mp he
      refine ⟨j, fun hji => hne ?_, hj⟩
      rw [hji, h0] at hj
      cases hj
      exact hid

theorem Filled.del (h : Filled idx) (id : FileId) : Filled (ttResumeDel idx id) := by
  refine ⟨fun e he => h.wf e ((h.mem_del id).mp he).1, h.unique.del id, ?_⟩
  have hlen := h.length_le
  cases hf : idx.findIdx? fun e => e.holds id with
  | none => simpa only [ttResumeDel, hf] using hlen
  | some i =>
    have hperm := ttResumeDel_perm (fun e he => (h.wf e he).used) hf
    rw [hperm.length_eq, List.length_eraseIdx]
    split_ifs <;> omega

theorem Filled.lookup_del (h : Filled idx) (id : FileId) :
    lookup (ttResumeDel idx id) = Function.update (lookup idx) id none := by
  funext id'
  by_cases hid : id' = id
  · subst hid
    rw [Function.update_self, (h.del id').lookup_eq_none]
    exact fun e he => ((h.mem_del id').mp he).2
  · rw [Function.update_of_ne hid]
    ext v
    rw [(h.del id).lookup_iff, h.lookup_iff]
    constructor
    · rintro ⟨e, he, hv⟩
      exact ⟨e, ((h.mem_del id).mp he).1, hv⟩
    · rintro ⟨e, he, hide, hv⟩
      exact ⟨e, (h.mem_del id).mpr ⟨he, fun h => hid (hide.symm.trans h)⟩, hide, hv⟩

structure Recordable (path : Bytes) (bytes : ℕ) : Prop where
  ne_nil : path ≠ []
  text : 0 ∉ path
  fits : path.length < 1024
  range : bytes < 2 ^ 64

variable {path : Bytes} {bytes : ℕ}

theorem Recordable.take (hp : Recordable path bytes) : path.take ttResumePathMax = path := by
  have hfits := hp.fits
  exact List.take_of_length_le (by simp only [ttResumePathMax]; omega)

def dropsNew (M : ResumeMap) (id : FileId) : Prop := M id = none ∧ ttResumeMax ≤ M.ids.ncard

theorem Filled.dropsNew_iff (h : Filled idx) : dropsNew (lookup idx) id ↔
    idx.findIdx? (fun e => e.holds id) = none ∧ ttResumeMax ≤ idx.length := by
  rw [dropsNew, h.ncard_ids, h.lookup_eq_none, List.findIdx?_eq_none_iff]
  have hiff : (∀ e ∈ idx, e.fileId ≠ id) ↔ ∀ e ∈ idx, e.holds id = false := by
    refine forall₂_congr fun e he => ?_
    simp [TTResumeEntry.holds, (h.wf e he).used]
  rw [hiff]

theorem Filled.mem_put (h : Filled idx) (hp : Recordable path bytes) (hnew : ¬ dropsNew (lookup idx) id) :
    e ∈ ttResumePut idx id path bytes ↔ (e ∈ idx ∧ e.fileId ≠ id) ∨ e = ⟨true, id, path, bytes⟩ := by
  rw [h.dropsNew_iff] at hnew
  unfold ttResumePut
  rw [hp.take]
  dsimp only
  split
  · next i hf =>
    obtain ⟨e₀, h0, hused, hid⟩ := findIdx_some hf
    constructor
    · intro he
      have hwf : ∀ e ∈ idx, e.used = true := fun e he => (h.wf e he).used
      obtain ⟨j, hj⟩ := List.mem_iff_getElem?.mp he
      rw [List.getElem?_modify] at hj
      split at hj
      · next hij =>
        subst hij
        rw [h0] at hj
        cases hj
        right
        rw [← hid, ← hused]
      · next hij =>
        simp only [Option.map_eq_map, Option.map_id'] at hj
        have hmem := List.mem_of_getElem? hj
        refine Or.inl ⟨hmem, fun hid' => hij ?_⟩
        exact h.unique i j e₀ e h0 hj hused (hwf e hmem) (hid.trans hid'.symm)
    · rintro (⟨he, hne⟩ | rfl)
      · obtain ⟨j, hj⟩ := List.mem_iff_getElem?.mp he
        have hij : i ≠ j := by
          rintro rfl
          rw [h0] at hj
          cases hj
          exact hne hid
        apply List.mem_of_getElem? (i := j)
        rw [List.getElem?_modify, hj]
        simp [hij]
      · apply List.mem_of_getElem? (i := i)
        rw [List.getElem?_modify, h0, ← hid, ← hused]
        simp
  · next hf =>
    have hroom : ¬ ttResumeMax ≤ idx.length := fun hfull => hnew ⟨hf, hfull⟩
    rw [if_neg hroom, List.mem_append, List.mem_singleton]
    constructor
    · rintro (he | he)
      · exact Or.inl ⟨he, findIdx_none hf ⟨he, (h.wf e he).used⟩⟩
      · exact Or.inr he
    · rintro (⟨he, -⟩ | he)
      · exact Or.inl he
      · exact Or.inr he

theorem Filled.put_full (h : Filled idx) (hfull : dropsNew (lookup idx) id) :
    ttResumePut idx id path bytes = idx := by
  obtain ⟨hf, hfull⟩ := h.dropsNew_iff.mp hfull
  simp only [ttResumePut, hf]
  rw [if_pos hfull]

theorem Filled.put (h : Filled idx) (hp : Recordable path bytes) (id : FileId) :
    Filled (ttResumePut idx id path bytes) := by
  by_cases hnew : dropsNew (lookup idx) id
  · rw [h.put_full hnew]
    exact h
  · refine ⟨fun e he => ?_, h.unique.put id path bytes, ?_⟩
    · obtain ⟨he, -⟩ | rfl := (h.mem_put hp hnew).mp he
      · exact h.wf e he
      · have hfits := hp.fits
        exact ⟨rfl, hp.ne_nil, hp.text, by simp only [ttResumePathMax]; omega, hp.range⟩
    · have hlen := h.length_le
      unfold ttResumePut
      dsimp only
      split
      · rw [List.length_modify]
        exact hlen
      · split_ifs with hfull
        · exact hlen
        · rw [List.length_append, List.length_singleton]
          omega

open Classical in
noncomputable def ResumeMap.put (M : ResumeMap) (id : FileId) (path : Bytes) (bytes : ℕ) : ResumeMap :=
  if dropsNew M id then M else Function.update M id (some (path, bytes))

theorem Filled.lookup_put (h : Filled idx) (hp : Recordable path bytes) (id : FileId) :
    lookup (ttResumePut idx id path bytes) = (lookup idx).put id path bytes := by
  rw [ResumeMap.put]
  split_ifs with hnew
  · rw [h.put_full hnew]
  · funext id'
    ext v
    rw [(h.put hp id).lookup_iff]
    by_cases hid : id' = id
    · subst hid
      rw [Function.update_self, Option.some.injEq]
      constructor
      · rintro ⟨e, he, hide, hv⟩
        obtain ⟨-, hne⟩ | rfl := (h.mem_put hp hnew).mp he
        · exact absurd hide hne
        · exact hv
      · rintro rfl
        exact ⟨_, (h.mem_put hp hnew).mpr (Or.inr rfl), rfl, rfl⟩
    · rw [Function.update_of_ne hid, h.lookup_iff]
      constructor
      · rintro ⟨e, he, hide, hv⟩
        obtain ⟨he, -⟩ | rfl := (h.mem_put hp hnew).mp he
        · exact ⟨e, he, hide, hv⟩
        · exact absurd hide.symm hid
      · rintro ⟨e, he, hide, hv⟩
        refine ⟨e, (h.mem_put hp hnew).mpr (Or.inl ⟨he, fun h => hid ?_⟩), hide, hv⟩
        rw [← hide, h]

/-! ### Whole runs -/

structure ResumeStore where
  idx : List TTResumeEntry
  file : Option Bytes

inductive ResumeOp
  | put (id : FileId) (path : Bytes) (bytes : ℕ)
  | del (id : FileId)
  | find (id : FileId)
  | save
  -- `mem` is the memory behind the plaintext
  | load (mem : Bytes)

def ResumeOp.Valid : ResumeOp → Prop
  | .put _ path bytes => Recordable path bytes
  | _ => True

namespace ResumeStore

def new : ResumeStore := ⟨[], none⟩

def step (T : ToxEncryptSave) (key : Option ToxPassKey) (s : ResumeStore) : ResumeOp → ResumeStore
  | .put id path bytes => { s with idx := ttResumePut s.idx id path bytes }
  | .del id => { s with idx := ttResumeDel s.idx id }
  | .find _ => s
  | .save => { s with file := ttResumeSave key s.idx s.file }
  | .load mem => { s with idx := ttResumeLoad T key mem s.file }

def run (T : ToxEncryptSave) (key : Option ToxPassKey) (ops : List ResumeOp) : ResumeStore :=
  ops.foldl (step T key) new

end ResumeStore

/-- What the index is for: a map, and the map that was saved last. -/
structure ResumeSpec where
  map : ResumeMap
  saved : ResumeMap

namespace ResumeSpec

def new : ResumeSpec := ⟨fun _ => none, fun _ => none⟩

noncomputable def step (a : ResumeSpec) : ResumeOp → ResumeSpec
  | .put id path bytes => { a with map := a.map.put id path bytes }
  | .del id => { a with map := Function.update a.map id none }
  | .find _ => a
  | .save => { a with saved := a.map }
  | .load _ => { a with map := a.saved }

noncomputable def run (ops : List ResumeOp) : ResumeSpec := ops.foldl step new

end ResumeSpec

structure Persists (T : ToxEncryptSave) (key : Option ToxPassKey) (s : ResumeStore) (a : ResumeSpec) :
    Prop where
  filled : Filled s.idx
  map : lookup s.idx = a.map
  kept : ∀ mem, Filled (ttResumeLoad T key mem s.file)
  saved : ∀ mem, lookup (ttResumeLoad T key mem s.file) = a.saved

theorem persists_new : Persists T key .new .new :=
  ⟨filled_nil, rfl, fun _ => filled_nil, fun _ => rfl⟩

theorem Persists.step (hT : T.SparesPlain) (hk : ∀ k ∈ key, k.Invertible T) {s : ResumeStore}
    {a : ResumeSpec} (h : Persists T key s a) {op : ResumeOp} (hop : op.Valid) :
    Persists T key (s.step T key op) (a.step op) := by
  cases op with
  | put id path bytes =>
    refine ⟨h.filled.put hop id, ?_, h.kept, h.saved⟩
    rw [ResumeSpec.step, ← h.map]
    exact h.filled.lookup_put hop id
  | del id =>
    refine ⟨h.filled.del id, ?_, h.kept, h.saved⟩
    rw [ResumeSpec.step, ← h.map]
    exact h.filled.lookup_del id
  | find id => exact h
  | save =>
    have hload (mem : Bytes) : ttResumeLoad T key mem (ttResumeSave key s.idx s.file) = s.idx :=
      ttResumeLoad_save hT hk h.filled.wf h.filled.length_le mem s.file
    refine ⟨h.filled, h.map, fun mem => ?_, fun mem => ?_⟩
    · exact (hload mem).symm ▸ h.filled
    · exact (congrArg lookup (hload mem)).trans h.map
  | load mem => exact ⟨h.kept mem, h.saved mem, h.kept, h.saved⟩

theorem resume_persists (hT : T.SparesPlain) (hk : ∀ k ∈ key, k.Invertible T) (ops : List ResumeOp)
    (hops : ∀ op ∈ ops, op.Valid) :
    Persists T key (ResumeStore.run T key ops) (ResumeSpec.run ops) := by
  induction ops using List.reverseRecOn with
  | nil => exact persists_new
  | append_singleton ops op ih =>
    have h := ih fun op' hop => hops op' (List.mem_append_left _ hop)
    rw [ResumeStore.run, ResumeSpec.run, List.foldl_append, List.foldl_append]
    exact h.step hT hk (hops op (by simp))

theorem resume_index_map (hT : T.SparesPlain) (hk : ∀ k ∈ key, k.Invertible T) (ops : List ResumeOp)
    (hops : ∀ op ∈ ops, op.Valid) :
    let s := ResumeStore.run T key ops
    (∀ e ∈ s.idx, e.used = true) ∧ (s.idx.map TTResumeEntry.fileId).Nodup ∧
      s.idx.length ≤ ttResumeMax ∧
      (∀ id, (ttResumeFind s.idx id).map (fun e => (e.path, e.bytes)) = (ResumeSpec.run ops).map id) ∧
      ∀ mem, lookup (ttResumeLoad T key mem (ttResumeSave key s.idx s.file)) = (ResumeSpec.run ops).map := by
  have h := resume_persists hT hk ops hops
  refine ⟨fun e he => (h.filled.wf e he).used, h.filled.nodup_ids, h.filled.length_le,
    fun id => congrFun h.map id, fun mem => ?_⟩
  rw [ttResumeLoad_save hT hk h.filled.wf h.filled.length_le]
  exact h.map

namespace Instance

def resumeOps : List ResumeOp :=
  [.put (Blob.zero _) [47, 10, 51, 32, 49] 7, .put (Blob.zero _) [47, 10, 51, 32, 49] 4096, .save,
    .del (Blob.zero _), .load []]

theorem resume_index_map_reload :
    (ResumeStore.run encryptSave (some passKey) resumeOps).idx.length ≤ ttResumeMax ∧
      (ttResumeFind (ResumeStore.run encryptSave (some passKey) resumeOps).idx (Blob.zero _)).map
        (fun e => (e.path, e.bytes)) = (ResumeSpec.run resumeOps).map (Blob.zero _) := by
  have hops : ∀ op ∈ resumeOps, op.Valid := by
    simp only [resumeOps, List.mem_cons, List.not_mem_nil, or_false, forall_eq_or_imp, forall_eq]
    refine ⟨⟨by simp, by decide, by decide, by decide⟩, ⟨by simp, by decide, by decide, by decide⟩,
      trivial, trivial, trivial⟩
  have hkey : ∀ k ∈ some passKey, k.Invertible encryptSave := by
    intro k hk
    cases hk
    exact passKey_invertible
  obtain ⟨-, -, hlen, hfind, -⟩ := resume_index_map encryptSave_sparesPlain hkey resumeOps hops
  exact ⟨hlen, hfind _⟩

end Instance

end TkTox
