import TkTox.Bytes

/-!
The cross-restart resume index of resume.c: which partial file an offered file id belongs to,
and how many of its bytes were received. The list holds the cells below `count`.
-/

namespace TkTox

abbrev toxFileIdLength : ℕ := 32

abbrev FileId := Blob toxFileIdLength

structure TTResumeEntry where
  used : Bool
  fileId : FileId
  path : Bytes
  bytes : ℕ
deriving DecidableEq

abbrev ttResumeMax : ℕ := 32

abbrev ttResumePathMax : ℕ := 1023

namespace TTResumeEntry

def zero : TTResumeEntry := ⟨false, Blob.zero _, [], 0⟩

def holds (id : FileId) (e : TTResumeEntry) : Bool := e.used && decide (e.fileId = id)

end TTResumeEntry

def ttResumeFind (idx : List TTResumeEntry) (id : FileId) : Option TTResumeEntry :=
  idx.find? fun e => e.holds id

def ttResumePut (idx : List TTResumeEntry) (id : FileId) (path : Bytes) (bytes : ℕ) :
    List TTResumeEntry :=
  let path := path.take ttResumePathMax
  match idx.findIdx? fun e => e.holds id with
  | some i => idx.modify i fun e => { e with path := path, bytes := bytes }
  -- a full index drops the new one
  | none => if ttResumeMax ≤ idx.length then idx else idx ++ [⟨true, id, path, bytes⟩]

def ttResumeSetBytes (idx : List TTResumeEntry) (id : FileId) (bytes : ℕ) : List TTResumeEntry :=
  match idx.findIdx? fun e => e.holds id with
  | some i => idx.modify i fun e => { e with bytes := bytes }
  | none => idx

def lastUsedAfter (idx : List TTResumeEntry) (i : ℕ) : Option ℕ :=
  (List.range idx.length).reverse.find? fun j => decide (i < j) && (idx.getD j .zero).used

def ttResumeDel (idx : List TTResumeEntry) (id : FileId) : List TTResumeEntry :=
  match idx.findIdx? fun e => e.holds id with
  | none => idx
  | some i =>
    let idx := idx.set i .zero
    match lastUsedAfter idx i with
    | some j => ((idx.set i (idx.getD j .zero)).set j .zero).dropLast
    | none => idx.dropLast

def ttResumeSaved (idx : List TTResumeEntry) : List TTResumeEntry :=
  idx.filter fun e => e.used && decide (e.path ≠ [] ∧ e.path.length ≤ ttResumePathMax)

def HasEntry (idx : List TTResumeEntry) (e : TTResumeEntry) : Prop := e ∈ idx ∧ e.used = true

def UniqueIds (idx : List TTResumeEntry) : Prop :=
  ∀ (i j : ℕ) (e e' : TTResumeEntry), idx[i]? = some e → idx[j]? = some e' → e.used = true → e'.used = true →
    e.fileId = e'.fileId → i = j

variable {idx : List TTResumeEntry} {id : FileId} {e e' : TTResumeEntry} {i j : ℕ}

theorem HasEntry.get (h : HasEntry idx e) : ∃ i : ℕ, idx[i]? = some e := List.mem_iff_getElem?.mp h.1

theorem UniqueIds.entry_eq (hu : UniqueIds idx)
    (he : HasEntry idx e) (he' : HasEntry idx e') (hid : e.fileId = e'.fileId) : e = e' := by
  obtain ⟨i, hi⟩ := he.get
  obtain ⟨j, hj⟩ := he'.get
  have := hu i j e e' hi hj he.2 he'.2 hid
  subst this
  rw [hi] at hj
  exact Option.some.inj hj

theorem ttResumeFind_some (h : ttResumeFind idx id = some e) : HasEntry idx e ∧ e.fileId = id := by
  have hp := List.find?_some h
  simp only [TTResumeEntry.holds, Bool.and_eq_true, decide_eq_true_eq] at hp
  exact ⟨⟨List.mem_of_find?_eq_some h, hp.1⟩, hp.2⟩

theorem findIdx_some (h : idx.findIdx? (fun e => e.holds id) = some i) :
    ∃ e, idx[i]? = some e ∧ e.used = true ∧ e.fileId = id := by
  obtain ⟨hlt, hp, -⟩ := List.findIdx?_eq_some_iff_getElem.mp h
  simp only [TTResumeEntry.holds, Bool.and_eq_true, decide_eq_true_eq] at hp
  exact ⟨_, List.getElem?_eq_getElem hlt, hp⟩

theorem findIdx_none (h : idx.findIdx? (fun e => e.holds id) = none) (he : HasEntry idx e) :
    e.fileId ≠ id := by
  intro hid
  have := List.findIdx?_eq_none_iff.mp h e he.1
  simp [TTResumeEntry.holds, he.2, hid] at this

theorem HasEntry.modify (hu : UniqueIds idx) {f : TTResumeEntry → TTResumeEntry}
    (h : idx.findIdx? (fun e => e.holds id) = some i) (he : HasEntry (idx.modify i f) e) :
    (∃ e₀, HasEntry idx e₀ ∧ e₀.fileId = id ∧ e = f e₀) ∨ (HasEntry idx e ∧ e.fileId ≠ id) := by
  obtain ⟨e₀, h0, hused, hid⟩ := findIdx_some h
  obtain ⟨j, hj⟩ := he.get
  rw [List.getElem?_modify] at hj
  split at hj
  · next hij =>
    subst hij
    rw [h0] at hj
    cases hj
    exact .inl ⟨e₀, ⟨List.mem_of_getElem? h0, hused⟩, hid, rfl⟩
  · next hij =>
    simp only [Option.map_eq_map, Option.map_id'] at hj
    refine .inr ⟨⟨List.mem_of_getElem? hj, he.2⟩, ?_⟩
    intro hid'
    exact hij (hu i j e₀ e h0 hj hused he.2 (hid.trans hid'.symm))

theorem UniqueIds.modify (hu : UniqueIds idx) {f : TTResumeEntry → TTResumeEntry}
    (hf : ∀ e, (f e).used = e.used ∧ (f e).fileId = e.fileId) (i : ℕ) : UniqueIds (idx.modify i f) := by
  have hget : ∀ {j : ℕ} {e : TTResumeEntry}, (idx.modify i f)[j]? = some e →
      ∃ e₀ : TTResumeEntry, idx[j]? = some e₀ ∧ e.used = e₀.used ∧ e.fileId = e₀.fileId := by
    intro j e hj
    rw [List.getElem?_modify] at hj
    obtain ⟨e₀, h0, rfl⟩ := Option.map_eq_some_iff.mp hj
    refine ⟨e₀, h0, ?_⟩
    split
    · exact hf e₀
    · exact ⟨rfl, rfl⟩
  intro j k e e' hj hk hused hused' hid
  obtain ⟨e₀, h0, hue, hie⟩ := hget hj
  obtain ⟨e₁, h1, hue', hie'⟩ := hget hk
  exact hu j k e₀ e₁ h0 h1 (hue ▸ hused) (hue' ▸ hused') (by rw [← hie, ← hie', hid])

theorem HasEntry.setBytes (hu : UniqueIds idx) {bytes : ℕ}
    (he : HasEntry (ttResumeSetBytes idx id bytes) e) :
    (∃ e₀, HasEntry idx e₀ ∧ e₀.fileId = id ∧ e = { e₀ with bytes := bytes }) ∨
      (HasEntry idx e ∧ e.fileId ≠ id) := by
  unfold ttResumeSetBytes at he
  split at he
  · next h => exact he.modify hu h
  · next h => exact .inr ⟨he, findIdx_none h he⟩

theorem UniqueIds.setBytes (hu : UniqueIds idx) (id : FileId) (bytes : ℕ) :
    UniqueIds (ttResumeSetBytes idx id bytes) := by
  unfold ttResumeSetBytes
  split
  · exact hu.modify (by simp) _
  · exact hu

theorem HasEntry.put (hu : UniqueIds idx) {path : Bytes} {bytes : ℕ}
    (he : HasEntry (ttResumePut idx id path bytes) e) :
    (e.fileId = id ∧ e.path = path.take ttResumePathMax ∧ e.bytes = bytes) ∨
      (HasEntry idx e ∧ e.fileId ≠ id) := by
  unfold ttResumePut at he
  split at he
  · next h =>
    obtain ⟨e₀, -, hid, rfl⟩ | hold := he.modify hu h
    · exact .inl ⟨hid, rfl, rfl⟩
    · exact .inr hold
  · next h =>
    split at he
    · exact .inr ⟨he, findIdx_none h he⟩
    · obtain hmem | hmem := List.mem_append.mp he.1
      · exact .inr ⟨⟨hmem, he.2⟩, findIdx_none h ⟨hmem, he.2⟩⟩
      · rw [List.mem_singleton] at hmem
        subst hmem
        exact .inl ⟨rfl, rfl, rfl⟩

theorem UniqueIds.put (hu : UniqueIds idx) (id : FileId) (path : Bytes) (bytes : ℕ) :
    UniqueIds (ttResumePut idx id path bytes) := by
  unfold ttResumePut
  split
  · exact hu.modify (by simp) _
  · next h =>
    split
    · exact hu
    · intro i j e e' hi hj hused hused' hid
      have hcell : ∀ {k : ℕ} {e : TTResumeEntry}, (idx ++ [⟨true, id, path.take ttResumePathMax, bytes⟩])[k]? = some e →
          idx[k]? = some e ∨ (k = idx.length ∧ e.fileId = id) := by
        intro k e hk
        rw [List.getElem?_append] at hk
        split at hk
        · exact .inl hk
        · next hlt =>
          rw [List.getElem?_singleton] at hk
          split at hk
          · next h0 =>
            cases hk
            exact .inr ⟨by omega, rfl⟩
          · cases hk
      obtain hi | ⟨hi, hid₁⟩ := hcell hi <;> obtain hj | ⟨hj, hid₂⟩ := hcell hj
      · exact hu i j e e' hi hj hused hused' hid
      · exact absurd (hid.trans hid₂) (findIdx_none h ⟨List.mem_of_getElem? hi, hused⟩)
      · exact absurd (hid.symm.trans hid₁) (findIdx_none h ⟨List.mem_of_getElem? hj, hused'⟩)
      · rw [hi, hj]

theorem UniqueIds.of_cells (hu : UniqueIds idx) {idx' : List TTResumeEntry} (cell : ℕ → ℕ)
    (h : ∀ (k : ℕ) (e : TTResumeEntry), idx'[k]? = some e → e.used = true → idx[cell k]? = some e)
    (hinj : ∀ (j k : ℕ) (e e' : TTResumeEntry), idx'[j]? = some e → idx'[k]? = some e' →
      e.used = true → e'.used = true → cell j = cell k → j = k) : UniqueIds idx' := by
  intro j k e e' hj hk hused hused' hid
  apply hinj j k e e' hj hk hused hused'
  exact hu _ _ e e' (h j e hj hused) (h k e' hk hused') hused hused' hid

theorem getElem?_dropLast_some {α : Type*} {l : List α} {k : ℕ} {a : α}
    (h : l.dropLast[k]? = some a) : l[k]? = some a := by
  rw [List.getElem?_dropLast] at h
  split at h
  · exact h
  · cases h

theorem getElem?_set_used (h : (idx.set i .zero)[j]? = some e) (he : e.used = true) :
    j ≠ i ∧ idx[j]? = some e := by
  rw [List.getElem?_set] at h
  split at h
  · split at h
    · cases h
      cases he
    · cases h
  · next hij => exact ⟨Ne.symm hij, h⟩

theorem lastUsedAfter_some (h : lastUsedAfter idx i = some j) :
    i < j ∧ ∃ e, idx[j]? = some e ∧ e.used = true ∧ idx.getD j .zero = e := by
  have hp := List.find?_some h
  have hm := List.mem_of_find?_eq_some h
  simp only [Bool.and_eq_true, decide_eq_true_eq, List.mem_reverse, List.mem_range] at hp hm
  refine ⟨hp.1, idx.getD j .zero, ?_, hp.2, rfl⟩
  simp [List.getD, List.getElem?_eq_getElem hm]

theorem ttResumeDel_cell (h : idx.findIdx? (fun e => e.holds id) = some i) :
    ∃ cell : ℕ → ℕ,
      (∀ (k : ℕ) (e : TTResumeEntry), (ttResumeDel idx id)[k]? = some e → e.used = true →
        cell k ≠ i ∧ idx[cell k]? = some e) ∧
      ∀ (j k : ℕ) (e e' : TTResumeEntry), (ttResumeDel idx id)[j]? = some e →
        (ttResumeDel idx id)[k]? = some e' → e.used = true → e'.used = true →
        cell j = cell k → j = k := by
  simp only [ttResumeDel, h]
  cases hl : lastUsedAfter (idx.set i .zero) i with
  | none =>
    refine ⟨fun k => k, ?_, fun j k e e' _ _ _ _ hjk => hjk⟩
    intro k e hk hused
    exact getElem?_set_used (getElem?_dropLast_some hk) hused
  | some j =>
    obtain ⟨hij, ej, hj, hjused, hget⟩ := lastUsedAfter_some hl
    simp only [hget]
    have hfill : ∀ (k : ℕ) (e : TTResumeEntry),
        ((((idx.set i .zero).set i ej).set j .zero).dropLast)[k]? = some e → e.used = true →
        k ≠ j ∧ ((idx.set i .zero).set i ej)[k]? = some e :=
      fun k e hk hused => getElem?_set_used (getElem?_dropLast_some hk) hused
    refine ⟨fun k => if k = i then j else k, ?_, ?_⟩
    · intro k e hk hused
      obtain ⟨hkj, hk⟩ := hfill k e hk hused
      rw [List.getElem?_set] at hk
      by_cases hki : i = k
      · subst hki
        rw [if_pos rfl] at hk
        split at hk
        · cases hk
          simpa using getElem?_set_used hj hjused
        · cases hk
      · rw [if_neg hki] at hk
        simpa [Ne.symm hki] using getElem?_set_used hk hused
    · intro k k' e e' hk hk' hused hused' heq
      obtain ⟨hkj, -⟩ := hfill k e hk hused
      obtain ⟨hkj', -⟩ := hfill k' e' hk' hused'
      dsimp only at heq
      split_ifs at heq with h1 h2 h2
      · rw [h1, h2]
      · exact absurd heq.symm hkj'
      · exact absurd heq hkj
      · exact heq

theorem HasEntry.del (hu : UniqueIds idx) (he : HasEntry (ttResumeDel idx id) e) :
    HasEntry idx e ∧ e.fileId ≠ id := by
  cases h : idx.findIdx? fun e => e.holds id with
  | none =>
    simp only [ttResumeDel, h] at he
    exact ⟨he, findIdx_none h he⟩
  | some i =>
    obtain ⟨cell, hcell, -⟩ := ttResumeDel_cell h
    obtain ⟨e₀, h0, hused, hid⟩ := findIdx_some h
    obtain ⟨k, hk⟩ := he.get
    obtain ⟨hne, hk⟩ := hcell k e hk he.2
    refine ⟨⟨List.mem_of_getElem? hk, he.2⟩, ?_⟩
    intro hid'
    exact hne (hu _ _ e e₀ hk h0 he.2 hused (hid'.trans hid.symm))

theorem UniqueIds.del (hu : UniqueIds idx) (id : FileId) : UniqueIds (ttResumeDel idx id) := by
  cases h : idx.findIdx? fun e => e.holds id with
  | none => simpa only [ttResumeDel, h] using hu
  | some i =>
    obtain ⟨cell, hcell, hinj⟩ := ttResumeDel_cell h
    exact hu.of_cells cell (fun k e hk hused => (hcell k e hk hused).2) hinj

theorem uniqueIds_iff : UniqueIds idx ↔
    idx.Pairwise fun e e' => e.used = true → e'.used = true → e.fileId ≠ e'.fileId := by
  rw [List.pairwise_iff_getElem]
  constructor
  · intro hu i j hi hj hij hused hused' hid
    have := hu i j _ _ (List.getElem?_eq_getElem hi) (List.getElem?_eq_getElem hj) hused hused' hid
    omega
  · intro h i j e e' hi hj hused hused' hid
    obtain ⟨hil, rfl⟩ := List.getElem?_eq_some_iff.mp hi
    obtain ⟨hjl, rfl⟩ := List.getElem?_eq_some_iff.mp hj
    obtain hlt | heq | hgt := Nat.lt_trichotomy i j
    · exact absurd hid (h i j hil hjl hlt hused hused')
    · exact heq
    · exact absurd hid.symm (h j i hjl hil hgt hused' hused)

theorem UniqueIds.saved (hu : UniqueIds idx) : UniqueIds (ttResumeSaved idx) :=
  uniqueIds_iff.mpr ((uniqueIds_iff.mp hu).filter _)

theorem mem_saved (he : e ∈ ttResumeSaved idx) : HasEntry idx e := by
  obtain ⟨hmem, hp⟩ := List.mem_filter.mp he
  simp only [Bool.and_eq_true] at hp
  exact ⟨hmem, hp.1⟩

end TkTox
