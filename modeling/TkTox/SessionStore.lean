import TkTox.AtRest
import TkTox.SessionRecord

/-!
The session sidecar of `session_store.c`: which file a save leaves and which sessions a load
restores from it.
-/

namespace TkTox

@[simp] abbrev ttSesMagic : Bytes := [84, 84, 83, 69, 83, 49]

def activeCount (e2ee : Fin 256 → TTSession) : ℕ :=
  ((List.finRange 256).filter fun fn => (e2ee fn).active).length

def sesRecord (fn : Fin 256) (s : TTSession) : Bytes :=
  UInt8.ofNat fn.val :: (sessionPut s).drop 1

def sesPlain (e2ee : Fin 256 → TTSession) : Bytes :=
  ttSesMagic ++ [UInt8.ofNat (activeCount e2ee)] ++
    ((List.finRange 256).filter fun fn => (e2ee fn).active).flatMap fun fn => sesRecord fn (e2ee fn)

def ttSessionStoreSave (e2ee : Fin 256 → TTSession) (key : Option ToxPassKey)
    (file : Option Bytes) : Option Bytes :=
  if activeCount e2ee % 256 = 0 then none
  else match sidecarWrite key (sesPlain e2ee) with
  | none => file
  | some new => some new

def sesDecrypt (T : ToxEncryptSave) (key : Option ToxPassKey) (buf : Bytes) : Option Bytes :=
  match key with
  | none => some buf
  | some k =>
    if buf.length ≥ toxPassEncryptionExtraLength ∧ T.isDataEncrypted buf then k.decrypt buf
    else some buf

def sesReadAll : ℕ → Bytes → (Fin 256 → TTSession) → Fin 256 → TTSession
  | 0, _, e2ee => e2ee
  | _ + 1, [], e2ee => e2ee
  | n + 1, x :: p, e2ee =>
    let fn : Fin 256 := ⟨x.toNat, x.toNat_lt⟩
    let r := sessionGet (x :: p) (e2ee fn)
    let e2ee := Function.update e2ee fn r.1
    match r.2 with
    | none => e2ee
    | some p => sesReadAll n p e2ee

def ttSessionStoreLoad (T : ToxEncryptSave) (e2ee : Fin 256 → TTSession) (file : Option Bytes)
    (key : Option ToxPassKey) : Fin 256 → TTSession :=
  match file with
  | none => e2ee
  | some buf =>
    if buf.length = 0 ∨ buf.length > sidecarMax then e2ee
    else match sesDecrypt T key buf with
    | none => e2ee
    | some pt =>
      if pt.length < 6 ∨ pt.take 6 ≠ ttSesMagic then e2ee
      else match pt.drop 6 with
      | [] => e2ee
      | count :: p => sesReadAll count.toNat p e2ee

variable {T : ToxEncryptSave} {key : Option ToxPassKey} {e2ee e : Fin 256 → TTSession}

structure Restored (s t u : TTSession) : Prop where
  active : u.active = true
  role : u.iAmInitiator = s.iAmInitiator
  root : u.root = s.root
  send : u.send = s.send
  recv : u.recv = s.recv
  rekey : u.rekey = { s.rekey with carrier := t.rekey.carrier }
  sent : u.rel.sent.entries = s.rel.sent.entries
  rel : u.rel = { s.rel with sent := u.rel.sent }

theorem sessionGet_record {s : TTSession} (h : s.InRange) (fn : Fin 256) (t : TTSession)
    (rest : Bytes) : ∃ u, sessionGet (sesRecord fn s ++ rest) t = (u, some rest) ∧
      Restored s t u := by
  obtain ⟨sent, hget, he⟩ := sessionGet_put h t rest
  refine ⟨_, (rfl : _ = sessionGet (sessionPut s ++ rest) t).trans hget, ?_⟩
  exact ⟨rfl, rfl, rfl, rfl, rfl, rfl, he, rfl⟩

theorem sesReadAll_record {s u : TTSession} {fn : Fin 256} {rest : Bytes}
    (hget : sessionGet (sesRecord fn s ++ rest) (e fn) = (u, some rest)) (n : ℕ) :
    sesReadAll (n + 1) (sesRecord fn s ++ rest) e =
      sesReadAll n rest (Function.update e fn u) := by
  have hfn : (⟨(UInt8.ofNat fn.val).toNat, (UInt8.ofNat fn.val).toNat_lt⟩ : Fin 256) = fn := by
    apply Fin.ext
    simp only [UInt8.toNat_ofNat']
    exact Nat.mod_eq_of_lt fn.isLt
  rw [show sesRecord fn s ++ rest = UInt8.ofNat fn.val :: ((sessionPut s).drop 1 ++ rest) from rfl]
    at hget ⊢
  rw [sesReadAll]
  simp only [hfn, hget]

theorem sesReadAll_records {l : List (Fin 256)} (hl : l.Nodup)
    (h : ∀ fn ∈ l, (e2ee fn).InRange) (e : Fin 256 → TTSession) (fn : Fin 256) :
    (fn ∈ l → Restored (e2ee fn) (e fn) (sesReadAll l.length
      (l.flatMap fun fn => sesRecord fn (e2ee fn)) e fn)) ∧
      (fn ∉ l → sesReadAll l.length (l.flatMap fun fn => sesRecord fn (e2ee fn)) e fn = e fn) := by
  induction l generalizing e with
  | nil => exact ⟨by simp, fun _ => rfl⟩
  | cons a l ih =>
    obtain ⟨ha, hl⟩ := List.nodup_cons.mp hl
    obtain ⟨u, hget, hu⟩ := sessionGet_record (h a List.mem_cons_self) a (e a)
      (l.flatMap fun fn => sesRecord fn (e2ee fn))
    rw [List.flatMap_cons, List.length_cons, sesReadAll_record hget]
    obtain ⟨hin, hout⟩ := ih hl (fun x hx => h x (List.mem_cons_of_mem _ hx)) (Function.update e a u)
    constructor
    · intro hfn
      rcases List.mem_cons.mp hfn with rfl | hfn
      · rw [hout ha, Function.update_self]
        exact hu
      · have hne : fn ≠ a := fun he => ha (he ▸ hfn)
        rw [Function.update_of_ne hne] at hin
        exact hin hfn
    · intro hfn
      have hne : fn ≠ a := fun he => hfn (he ▸ List.mem_cons_self)
      rw [hout fun hm => hfn (List.mem_cons_of_mem _ hm), Function.update_of_ne hne]

theorem activeCount_le (e2ee : Fin 256 → TTSession) : activeCount e2ee ≤ 256 := by
  have h := List.length_filter_le (fun fn => (e2ee fn).active) (List.finRange 256)
  rw [List.length_finRange] at h
  exact h

theorem activeCount_pos {fn : Fin 256} (h : (e2ee fn).active = true) : 0 < activeCount e2ee :=
  List.length_pos_of_mem (List.mem_filter.mpr ⟨List.mem_finRange fn, h⟩)

theorem sesPlain_restores (hr : ∀ fn, (e2ee fn).active = true → (e2ee fn).InRange)
    (hc : activeCount e2ee < 256) (e : Fin 256 → TTSession) (fn : Fin 256) :
    ∃ count p, (sesPlain e2ee).drop 6 = count :: p ∧
      ((e2ee fn).active = true → Restored (e2ee fn) (e fn) (sesReadAll count.toNat p e fn)) ∧
      ((e2ee fn).active = false → sesReadAll count.toNat p e fn = e fn) := by
  refine ⟨_, _, rfl, ?_⟩
  have hcount : (UInt8.ofNat (activeCount e2ee)).toNat = activeCount e2ee := by
    rw [UInt8.toNat_ofNat', Nat.mod_eq_of_lt hc]
  have hmem : fn ∈ (List.finRange 256).filter (fun fn => (e2ee fn).active) ↔
      (e2ee fn).active = true := by simp
  obtain ⟨hin, hout⟩ := sesReadAll_records
    ((List.nodup_finRange 256).filter fun fn => (e2ee fn).active)
    (fun x hx => hr x (List.mem_filter.mp hx).2) e fn
  rw [hcount]
  exact ⟨fun ha => hin (hmem.mpr ha), fun ha => hout fun hm => by simp [ha] at hm⟩

def sesFileSize (key : Option ToxPassKey) (e2ee : Fin 256 → TTSession) : ℕ :=
  (sesPlain e2ee).length + if key.isSome then toxPassEncryptionExtraLength else 0

theorem ttSessionStoreSave_written (hk : ∀ k ∈ key, k.Invertible T) (ha : activeCount e2ee % 256 ≠ 0)
    (hs : key.isSome → (sesPlain e2ee).length ≤ sidecarMax) (file : Option Bytes) :
    ∃ buf, ttSessionStoreSave e2ee key file = some buf ∧ buf.length = sesFileSize key e2ee ∧
      sesDecrypt T key buf = some (sesPlain e2ee) := by
  unfold ttSessionStoreSave
  rw [if_neg ha]
  cases key with
  | none => exact ⟨_, rfl, rfl, rfl⟩
  | some k =>
    have hne : sesPlain e2ee ≠ [] := by simp [sesPlain]
    obtain ⟨ct, hct, hlen, henc, hdec⟩ := hk k rfl _ hne
    have hpos : (sesPlain e2ee).length ≠ 0 := by simp [sesPlain]
    have hfit : ¬ ((sesPlain e2ee).length = 0 ∨ (sesPlain e2ee).length > sidecarMax) := by
      have := hs rfl
      omega
    refine ⟨ct, ?_, hlen, ?_⟩
    · simp only [sidecarWrite, if_neg hfit, hct]
    · have hge : ct.length ≥ toxPassEncryptionExtraLength := by omega
      simp only [sesDecrypt]
      rw [if_pos ⟨hge, henc⟩, hdec]

theorem ttSessionStoreLoad_large {buf : Bytes} (h : buf.length > sidecarMax)
    (e : Fin 256 → TTSession) : ttSessionStoreLoad T e (some buf) key = e :=
  if_pos (Or.inr h)

theorem ttSessionStoreLoad_save (hk : ∀ k ∈ key, k.Invertible T)
    (hr : ∀ fn, (e2ee fn).active = true → (e2ee fn).InRange) (ha : activeCount e2ee % 256 ≠ 0)
    (hs : sesFileSize key e2ee ≤ sidecarMax) (file : Option Bytes) (e : Fin 256 → TTSession)
    (fn : Fin 256) :
    ((e2ee fn).active = true → Restored (e2ee fn) (e fn)
      (ttSessionStoreLoad T e (ttSessionStoreSave e2ee key file) key fn)) ∧
      ((e2ee fn).active = false →
        ttSessionStoreLoad T e (ttSessionStoreSave e2ee key file) key fn = e fn) := by
  have hplain : key.isSome → (sesPlain e2ee).length ≤ sidecarMax := fun _ => by
    unfold sesFileSize at hs
    omega
  obtain ⟨buf, hsave, hlen, hdec⟩ := ttSessionStoreSave_written hk ha hplain file
  have hc : activeCount e2ee < 256 := by
    have := activeCount_le e2ee
    omega
  obtain ⟨count, p, hp, hin⟩ := sesPlain_restores hr hc e fn
  have hsize : 6 < (sesPlain e2ee).length := by
    simp only [sesPlain, ttSesMagic, List.length_append, List.length_cons, List.length_nil]
    omega
  have hbuf : ¬ (buf.length = 0 ∨ buf.length > sidecarMax) := by
    unfold sesFileSize at hlen hs
    omega
  have hmagic : ¬ ((sesPlain e2ee).length < 6 ∨ (sesPlain e2ee).take 6 ≠ ttSesMagic) := by
    rintro (h | h)
    · omega
    · exact h rfl
  have hload : ttSessionStoreLoad T e (ttSessionStoreSave e2ee key file) key =
      sesReadAll count.toNat p e := by
    rw [hsave, ttSessionStoreLoad]
    simp only [if_neg hbuf, hdec, if_neg hmagic, hp]
  rw [hload]
  exact hin

/-- A save keeps the active sessions: a load into a cleared array makes the same friends active,
and no file of an earlier save is left. -/
def StoreKeeps (T : ToxEncryptSave) (key : Option ToxPassKey) (e2ee : Fin 256 → TTSession) : Prop :=
  (∀ file fn, (ttSessionStoreLoad T (fun _ => .zero) (ttSessionStoreSave e2ee key file) key
    fn).active = (e2ee fn).active) ∧
  ∀ file file', ttSessionStoreSave e2ee key file = ttSessionStoreSave e2ee key file'

theorem storeKeeps_inactive (h : ∀ fn, (e2ee fn).active = false) : StoreKeeps T key e2ee := by
  have hcount : activeCount e2ee = 0 := by
    unfold activeCount
    rw [List.length_eq_zero_iff, List.filter_eq_nil_iff]
    intro fn _
    simp [h fn]
  have hsave (file : Option Bytes) : ttSessionStoreSave e2ee key file = none := by
    rw [ttSessionStoreSave, hcount]
    rfl
  refine ⟨fun file fn => ?_, fun file file' => by rw [hsave, hsave]⟩
  rw [hsave, h fn]
  rfl

theorem storeKeeps_within (hk : ∀ k ∈ key, k.Invertible T)
    (hr : ∀ fn, (e2ee fn).active = true → (e2ee fn).InRange) (ha : activeCount e2ee % 256 ≠ 0)
    (hs : sesFileSize key e2ee ≤ sidecarMax) : StoreKeeps T key e2ee := by
  constructor
  · intro file fn
    obtain ⟨hin, hout⟩ := ttSessionStoreLoad_save hk hr ha hs file (fun _ => .zero) fn
    cases hfn : (e2ee fn).active with
    | true => exact (hin hfn).active
    | false =>
      rw [hout hfn]
      rfl
  · intro file file'
    have hplain : key.isSome → (sesPlain e2ee).length ≤ sidecarMax := fun _ => by
      unfold sesFileSize at hs
      omega
    unfold ttSessionStoreSave
    rw [if_neg ha, if_neg ha]
    cases key with
    | none => rfl
    | some k =>
      have hne : sesPlain e2ee ≠ [] := by simp [sesPlain]
      obtain ⟨ct, hct, -⟩ := hk k rfl _ hne
      have hpos : (sesPlain e2ee).length ≠ 0 := by simp [sesPlain]
      have hfit : ¬ ((sesPlain e2ee).length = 0 ∨ (sesPlain e2ee).length > sidecarMax) := by
        have := hplain rfl
        omega
      simp only [sidecarWrite, if_neg hfit, hct]

theorem StoreKeeps.within (hk : ∀ k ∈ key, k.Invertible T) (h : StoreKeeps T key e2ee)
    {fn : Fin 256} (ha : (e2ee fn).active = true) :
    activeCount e2ee < 256 ∧ sesFileSize key e2ee ≤ sidecarMax := by
  have hcount : activeCount e2ee % 256 ≠ 0 := by
    intro hz
    have hl := h.1 none fn
    rw [ttSessionStoreSave, if_pos hz, ha] at hl
    cases hl
  have hlt : activeCount e2ee < 256 := by
    have := activeCount_le e2ee
    omega
  refine ⟨hlt, ?_⟩
  by_contra hsize
  rw [not_le] at hsize
  have hplain : key.isSome → (sesPlain e2ee).length ≤ sidecarMax := by
    intro hsome
    by_contra hbig
    obtain ⟨k, rfl⟩ := Option.isSome_iff_exists.mp hsome
    have hold := h.2 none (some [])
    simp only [ttSessionStoreSave, if_neg hcount, sidecarWrite, if_pos (Or.inr (not_le.mp hbig))]
      at hold
    cases hold
  obtain ⟨buf, hsave, hlen, -⟩ := ttSessionStoreSave_written hk hcount hplain none
  have hl := h.1 none fn
  rw [hsave, ttSessionStoreLoad_large (by omega), ha] at hl
  cases hl

/-- A save keeps the active sessions exactly when there are none, or fewer than 256 whose file
a load accepts. -/
theorem session_store_keeps_iff (hk : ∀ k ∈ key, k.Invertible T)
    (hr : ∀ fn, (e2ee fn).active = true → (e2ee fn).InRange) :
    StoreKeeps T key e2ee ↔ (∀ fn, (e2ee fn).active = false) ∨
      (activeCount e2ee < 256 ∧ sesFileSize key e2ee ≤ sidecarMax) := by
  constructor
  · intro h
    by_cases hnone : ∀ fn, (e2ee fn).active = false
    · exact Or.inl hnone
    · rw [not_forall] at hnone
      obtain ⟨fn, hfn⟩ := hnone
      exact Or.inr (h.within hk (by simpa using hfn))
  · rintro (hnone | ⟨hc, hs⟩)
    · exact storeKeeps_inactive hnone
    · by_cases hz : activeCount e2ee % 256 = 0
      · refine storeKeeps_inactive fun fn => ?_
        by_contra hfn
        have := activeCount_pos (show (e2ee fn).active = true by simpa using hfn)
        omega
      · exact storeKeeps_within hk hr hz hs

namespace Instance

def allActive : Fin 256 → TTSession := fun _ => storedBob

theorem all_active_lost :
    (∀ fn, (allActive fn).active = true ∧ (allActive fn).InRange) ∧
      ttSessionStoreSave allActive (some passKey) none = none ∧
      ¬ StoreKeeps encryptSave (some passKey) allActive := by
  have hactive : ∀ fn, (allActive fn).active = true := fun _ => by
    change storedBob.active = true
    decide +kernel
  have hcount : activeCount allActive = 256 := by
    unfold activeCount
    rw [List.filter_eq_self.mpr fun fn _ => hactive fn, List.length_finRange]
  have hsave : ttSessionStoreSave allActive (some passKey) none = none := by
    rw [ttSessionStoreSave, hcount]
    rfl
  refine ⟨fun fn => ⟨hactive fn, storedBob_inRange⟩, hsave, fun h => ?_⟩
  have hl := h.1 none 0
  rw [hsave, hactive] at hl
  cases hl

def oneActive : Fin 256 → TTSession := fun fn => if fn = 3 then storedBob else .zero

end Instance

theorem session_store_keeps_one :
    StoreKeeps Instance.encryptSave (some Instance.passKey) Instance.oneActive := by
  have hin : ∀ fn, (Instance.oneActive fn).active = true → (Instance.oneActive fn).InRange := by
    intro fn hfn
    unfold Instance.oneActive at hfn ⊢
    split_ifs at hfn ⊢
    · exact Instance.storedBob_inRange
    · cases hfn
  refine (session_store_keeps_iff (fun k hk => ?_) hin).mpr (Or.inr (by decide +kernel))
  cases hk
  exact Instance.passKey_invertible

end TkTox
