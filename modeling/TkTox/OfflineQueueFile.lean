import Mathlib.Data.List.GetD
import Mathlib.Data.List.TakeWhile
import TkTox.OfflineQueue

/-!
The round trip of the offline queue file. The writer puts the magic once, before the first
entry, and the reader asks for it before every entry.
-/

namespace TkTox

variable {T : ToxEncryptSave} {key : Option ToxPassKey} {q : TTOfflineQueue} {mem text rest : Bytes}

def QueuedText (m : Bytes) : Prop := m ≠ [] ∧ 0 ∉ m ∧ m.length ≤ toxMaxMessageLength

structure TTOqFriend.WF (fr : TTOqFriend) : Prop where
  count_le : fr.count ≤ ttOqMaxPerFriend
  alloc : fr.msgs = none → fr.count = 0
  text : ∀ m ∈ fr.messages, QueuedText m

def TTOfflineQueue.WF (q : TTOfflineQueue) : Prop := ∀ fn, (q.f fn).WF

theorem TTOfflineQueue.WF.empty : TTOfflineQueue.empty.WF :=
  fun _ => ⟨Nat.zero_le _, fun _ => rfl, fun _ h => absurd h List.not_mem_nil⟩

theorem TTOqFriend.WF.add {fr : TTOqFriend} (h : fr.WF) (ht : cString text ≠ []) :
    (fr.add text).WF := by
  have hl := h.count_le
  refine ⟨?_, (fun hn => by cases hn), fun m hm => ?_⟩
  · unfold TTOqFriend.add
    simp only [ttOqMaxPerFriend] at hl ⊢
    split_ifs with hf
    · change fr.count - 1 + 1 ≤ 64
      omega
    · omega
  · rw [TTOqFriend.messages_add _ _ hl h.alloc] at hm
    rcases List.mem_append.mp hm with hm | hm
    · split_ifs at hm
      · exact h.text m (List.mem_of_mem_tail hm)
      · exact h.text m hm
    · rw [List.mem_singleton] at hm
      subst hm
      refine ⟨by simpa using ht, fun h0 => ?_, by simp⟩
      have := List.mem_takeWhile_imp (List.mem_of_mem_take h0)
      simp at this

theorem TTOfflineQueue.WF.add (h : q.WF) (fn : ℕ) (text : Bytes) : (ttOqAdd q fn text).WF := by
  unfold ttOqAdd
  split_ifs with hfn ht
  · exact h
  · intro x
    by_cases hx : x = ⟨fn, hfn⟩
    · subst hx
      simp only [Function.update_self]
      exact (h _).add ht
    · simp only [Function.update_of_ne hx]
      exact h x
  · exact h

theorem QueuedText.cString (h : QueuedText text) : cString text = text :=
  cString_eq_self_iff.mpr h.2.1

theorem oqReadEntry_entry (fn : Fin 256) (ht : QueuedText text) :
    oqReadEntry mem (ttOqMagic ++ oqEntry fn text ++ rest) = some (fn.val, text, rest) := by
  obtain ⟨hne, -, hlen⟩ := ht
  have hpos : text.length ≠ 0 := by simpa using hne
  have hfn : (fn : ℕ) < 2 ^ 32 := by omega
  simp only [toxMaxMessageLength] at hlen
  have hb : (ttOqMagic ++ oqEntry fn text ++ rest).drop 5 =
      decimal fn ++ 32 :: (decimal text.length ++ 10 :: (text ++ rest)) := by
    simp [oqEntry]
  have htake : (ttOqMagic ++ oqEntry fn text ++ rest).take 5 = ttOqMagic := by simp
  have h5 : ¬ (ttOqMagic ++ oqEntry fn text ++ rest).length < 5 := by
    simp only [List.length_append, ttOqMagic, List.length_cons, List.length_nil]
    omega
  have hscan1 : scanU ((decimal fn ++ 32 :: (decimal text.length ++ 10 :: (text ++ rest))) ++ mem) =
      some (fn.val, 32 :: (decimal text.length ++ 10 :: (text ++ rest ++ mem))) := by
    have := scanU_decimal hfn []
      (32 :: (decimal text.length ++ 10 :: (text ++ rest ++ mem))) (by simp)
      (by simp [isDigit])
    simpa using this
  have hdw : (32 :: (decimal text.length ++ 10 :: (text ++ rest ++ mem))).dropWhile isSpace =
      decimal text.length ++ 10 :: (text ++ rest ++ mem) := by
    obtain ⟨b, ds, hd⟩ := List.exists_cons_of_ne_nil (decimal_ne_nil text.length)
    have hs := (isDigit_not_space (decimal_digits text.length b (by rw [hd]; simp))).1
    rw [List.dropWhile_cons_of_pos (by decide), hd, List.cons_append,
      List.dropWhile_cons_of_neg (by simp [hs])]
  have hscan2 : scanU (decimal text.length ++ 10 :: (text ++ rest ++ mem)) =
      some (text.length, 10 :: (text ++ rest ++ mem)) := by
    have := scanU_decimal (n := text.length) (by omega) []
      (10 :: (text ++ rest ++ mem)) (by simp) (by simp [isDigit])
    simpa using this
  have hn : ((decimal fn ++ 32 :: (decimal text.length ++ 10 :: (text ++ rest))) ++ mem).length -
      (10 :: (text ++ rest ++ mem)).length = (decimal fn ++ 32 :: decimal text.length).length := by
    simp only [List.length_append, List.length_cons]
    omega
  have hsplit : decimal fn ++ 32 :: (decimal text.length ++ 10 :: (text ++ rest)) =
      (decimal fn ++ 32 :: decimal text.length) ++ 10 :: (text ++ rest) := by simp
  unfold oqReadEntry
  rw [if_neg h5, if_neg (not_not.mpr htake)]
  simp only [hb, hscan1, hdw, hscan2]
  rw [if_neg (by simp only [toxMaxMessageLength]; omega), hn, hsplit]
  have hget : ((decimal fn ++ 32 :: decimal text.length) ++ 10 :: (text ++ rest)).getD
      (decimal fn ++ 32 :: decimal text.length).length 0 = 10 := by
    rw [List.getD_append_right _ _ _ _ le_rfl, Nat.sub_self]
    rfl
  have hdrop : ((decimal fn ++ 32 :: decimal text.length) ++ 10 :: (text ++ rest)).drop
      ((decimal fn ++ 32 :: decimal text.length).length + 1) = text ++ rest := by
    rw [← List.drop_drop, List.drop_left]
    rfl
  rw [if_neg, hdrop, if_neg (by simp), List.take_left, List.drop_left]
  rw [not_or]
  refine ⟨?_, not_not.mpr hget⟩
  simp only [List.length_append, List.length_cons]
  omega

theorem oqReadEntry_magic : oqReadEntry mem ttOqMagic = none := by
  unfold oqReadEntry
  rw [if_neg (by simp), if_neg (by simp)]
  simp only [ttOqMagic, List.drop_succ_cons, List.drop_nil, List.nil_append, List.length_nil]
  split
  · rfl
  split
  · rfl
  split_ifs with h1 h2
  · rfl
  · rfl
  · exact absurd (Or.inl (Nat.zero_le _)) h2
  · exact absurd (Or.inl (Nat.zero_le _)) h2

theorem oqReadEntry_bare (fn : Fin 256) (text : Bytes) :
    oqReadEntry mem (oqEntry fn text ++ rest) = none := by
  obtain ⟨b, ds, hd⟩ := List.exists_cons_of_ne_nil (decimal_ne_nil fn.val)
  have hb := decimal_digits fn.val b (by rw [hd]; simp)
  unfold oqReadEntry
  split_ifs with h1 h2
  · rfl
  · rfl
  · rw [not_not] at h2
    have h84 : b = 84 := by
      simp only [oqEntry, hd, List.cons_append, List.take_succ_cons] at h2
      exact List.head_eq_of_cons_eq h2
    rw [h84] at hb
    exact absurd hb (by decide)

theorem oqReadAll_none (q : TTOfflineQueue) {b : Bytes} (h : oqReadEntry mem b = none) :
    oqReadAll mem b q = q := by
  rw [oqReadAll]
  split
  · rfl
  · rename_i heq
    rw [h] at heq
    cases heq

theorem oqReadAll_some (q : TTOfflineQueue) {b : Bytes} {fn : ℕ}
    (h : oqReadEntry mem b = some (fn, text, rest)) :
    oqReadAll mem b q = oqReadAll mem rest (ttOqAdd q fn text) := by
  rw [oqReadAll]
  split
  · rename_i heq
    rw [h] at heq
    cases heq
  · rename_i heq
    rw [h] at heq
    cases heq
    rfl

theorem flatMap_ite_eq {α β : Type*} [DecidableEq α] {l : List α} (hl : l.Nodup) {a : α}
    (ha : a ∈ l) (f : α → List β) : (l.flatMap fun x => if x = a then f x else []) = f a := by
  induction l with
  | nil => cases ha
  | cons x l ih =>
    obtain ⟨hx, hl⟩ := List.nodup_cons.mp hl
    rw [List.flatMap_cons]
    by_cases hxa : x = a
    · subst hxa
      have h0 : (l.flatMap fun y => if y = x then f y else []) = [] := by
        rw [List.flatMap_eq_nil_iff]
        intro y hy
        rw [if_neg]
        rintro rfl
        exact hx hy
      rw [if_pos rfl, h0, List.append_nil]
    · rw [if_neg hxa, List.nil_append, ih hl ((List.mem_cons.mp ha).resolve_left (Ne.symm hxa))]

theorem messages_eq_listing (q : TTOfflineQueue) (fn : Fin 256) :
    (q.f fn).messages = (q.listing.filter fun e => e.1 = fn).map Prod.snd := by
  have hf (x : Fin 256) : (((q.f x).messages.map fun m => (x, m)).filter fun e => e.1 = fn) =
      if x = fn then (q.f x).messages.map fun m => (x, m) else [] := by
    split_ifs with hx
    · rw [List.filter_eq_self]
      intro e he
      obtain ⟨m, -, rfl⟩ := List.mem_map.mp he
      simpa using hx
    · rw [List.filter_eq_nil_iff]
      intro e he
      obtain ⟨m, -, rfl⟩ := List.mem_map.mp he
      simpa using hx
  rw [TTOfflineQueue.listing, List.filter_flatMap]
  simp only [hf]
  rw [flatMap_ite_eq (List.nodup_finRange 256) (List.mem_finRange fn), List.map_map]
  exact (List.map_id _).symm

theorem TTOfflineQueue.WF.listing (hq : q.WF) {e : Fin 256 × Bytes} (he : e ∈ q.listing) :
    QueuedText e.2 := by
  obtain ⟨fn, -, hm⟩ := List.mem_flatMap.mp he
  obtain ⟨m, hin, rfl⟩ := List.mem_map.mp hm
  exact (hq fn).text m hin

theorem messages_add_empty (fn : Fin 256) (ht : QueuedText text) (x : Fin 256) :
    ((ttOqAdd .empty fn text).f x).messages = if x = fn then [text] else [] := by
  rw [ttOqAdd, dif_pos fn.isLt, if_neg (by rw [ht.cString]; exact ht.1)]
  by_cases hx : x = fn
  · subst hx
    have h := TTOqFriend.messages_add .empty text (by decide) fun _ => rfl
    rw [ht.cString, List.take_of_length_le ht.2.2] at h
    simp only [Function.update_self, ↓reduceIte]
    exact h
  · simp only [if_neg hx, Function.update_of_ne hx]
    rfl

theorem oqReadAll_plain (hq : q.WF) :
    oqReadAll mem (oqPlain q) .empty =
      match q.listing.head? with
      | none => .empty
      | some e => ttOqAdd .empty e.1 e.2 := by
  unfold oqPlain
  cases hl : q.listing with
  | nil => exact oqReadAll_none _ oqReadEntry_magic
  | cons e l =>
    have ht : QueuedText e.2 := hq.listing (by rw [hl]; simp)
    have hpos : ¬ e.2.length = 0 := by simpa using ht.1
    rw [List.flatMap_cons, if_neg hpos, ← List.append_assoc,
      oqReadAll_some _ (oqReadEntry_entry e.1 ht)]
    refine oqReadAll_none _ ?_
    cases l with
    | nil => rfl
    | cons e' l =>
      have ht' : QueuedText e'.2 := hq.listing (by rw [hl]; simp)
      have hpos' : ¬ e'.2.length = 0 := by simpa using ht'.1
      rw [List.flatMap_cons, if_neg hpos']
      exact oqReadEntry_bare e'.1 e'.2

theorem oqPlain_isPlain (q : TTOfflineQueue) : [84, 84] <+: oqPlain q := ⟨_, rfl⟩

theorem oqPlain_ne_nil (q : TTOfflineQueue) : oqPlain q ≠ [] := by
  simp [oqPlain]

theorem oqDecrypt_plain (hT : T.SparesPlain) : oqDecrypt T key (oqPlain q) = some (oqPlain q) := by
  unfold oqDecrypt
  rw [if_pos (hT _ (oqPlain_isPlain q)), ite_self]

variable (mem) in
theorem ttOqLoad_save (hT : T.SparesPlain) (hk : ∀ k ∈ key, k.Invertible T)
    (hsz : (oqPlain q).length ≤ sidecarMax) :
    ∃ file, ttOqSave q key = some file ∧ ttOqLoad T .empty file mem key =
      if (oqPlain q).length + (key.elim 0 fun _ => toxPassEncryptionExtraLength) > sidecarMax
      then .empty else oqReadAll mem (oqPlain q) .empty := by
  have hne : (oqPlain q).length ≠ 0 := by simpa using oqPlain_ne_nil q
  cases key with
  | none =>
    refine ⟨oqPlain q, rfl, ?_⟩
    have hsmall : ¬ (oqPlain q).length +
        ((none : Option ToxPassKey).elim 0 fun _ => toxPassEncryptionExtraLength) > sidecarMax := by
      simp only [Option.elim_none]
      omega
    rw [ttOqLoad, if_neg (by omega), oqDecrypt_plain hT, if_neg hsmall]
  | some k =>
    obtain ⟨ct, he, hl, hE, hd⟩ := hk k rfl (oqPlain q) (oqPlain_ne_nil q)
    refine ⟨ct, ?_, ?_⟩
    · simp only [ttOqSave, sidecarWrite]
      rw [if_neg (by omega), he]
    · have hdec : oqDecrypt T (some k) ct = some (oqPlain q) := by
        rw [oqDecrypt, if_neg (by omega), if_neg (by simp [hE])]
        exact hd
      simp only [ttOqLoad, hdec, Option.elim_some, ← hl]
      by_cases hbig : ct.length > sidecarMax
      · rw [if_pos (Or.inr hbig), if_pos hbig]
      · rw [if_neg (by omega), if_neg hbig]

/-- Every friend's messages come back in order from the file `tt_oq_save` writes. -/
def oqRestored (T : ToxEncryptSave) (key : Option ToxPassKey) (mem : Bytes) (q : TTOfflineQueue) :
    Prop :=
  ∃ file, ttOqSave q key = some file ∧
    ∀ fn, ((ttOqLoad T .empty file mem key).f fn).messages = (q.f fn).messages

theorem messages_empty (fn : Fin 256) : ((TTOfflineQueue.empty).f fn).messages = [] := rfl

theorem oqRestored_length_le (hT : T.SparesPlain) (hk : ∀ k ∈ key, k.Invertible T) (hq : q.WF)
    (hsz : (oqPlain q).length ≤ sidecarMax) (h : oqRestored T key mem q) : q.listing.length ≤ 1 := by
  obtain ⟨file, hs, hm⟩ := h
  obtain ⟨file', hs', hl⟩ := ttOqLoad_save mem hT hk hsz
  rw [hs] at hs'
  cases hs'
  rcases hlist : q.listing with _ | ⟨e, _ | ⟨e', l⟩⟩
  · exact Nat.zero_le _
  · exact le_rfl
  exfalso
  -- the loaded queue holds at most the first message, and friend `e'.1` has one more
  have he := hm e'.1
  rw [messages_eq_listing q, hlist, hl] at he
  split_ifs at he with hbig
  · rw [messages_empty] at he
    simp only [List.filter_cons, decide_true, ↓reduceIte] at he
    split_ifs at he <;> cases he
  · rw [oqReadAll_plain hq, hlist] at he
    dsimp only [List.head?_cons] at he
    rw [messages_add_empty e.1 (hq.listing (by rw [hlist]; simp))] at he
    by_cases hfn : e'.1 = e.1
    · simp [hfn] at he
    · simp [hfn, Ne.symm hfn] at he

theorem oqEntry_length_le (fn : Fin 256) (ht : QueuedText text) :
    (oqEntry fn text).length ≤ 1381 := by
  have h1 := decimal_length_le (n := fn) (k := 3) (by decide) (by omega)
  have hl : text.length ≤ 1372 := ht.2.2
  have h2 := decimal_length_le (n := text.length) (k := 4) (by decide) (by omega)
  simp only [oqEntry, List.length_append, List.length_cons, List.length_nil]
  omega

theorem oqRestored_of_length_le (hT : T.SparesPlain) (hk : ∀ k ∈ key, k.Invertible T) (hq : q.WF)
    (h : q.listing.length ≤ 1) : oqRestored T key mem q := by
  have hplain : (oqPlain q).length ≤ 1386 := by
    unfold oqPlain
    rcases hlist : q.listing with _ | ⟨e, _ | ⟨e', l⟩⟩
    · simp
    · have ht : QueuedText e.2 := hq.listing (by rw [hlist]; simp)
      have := oqEntry_length_le e.1 ht
      rw [List.flatMap_cons, if_neg (by simpa using ht.1), List.flatMap_nil, List.append_nil,
        List.length_append]
      simp only [ttOqMagic, List.length_cons, List.length_nil]
      omega
    · rw [hlist] at h
      simp at h
  obtain ⟨file, hs, hl⟩ := ttOqLoad_save (q := q) mem hT hk
    (by simp only [sidecarMax]; omega)
  refine ⟨file, hs, fun fn => ?_⟩
  have hfit : ¬ (oqPlain q).length +
      (key.elim 0 fun _ => toxPassEncryptionExtraLength) > sidecarMax := by
    cases key <;> simp only [Option.elim_none, Option.elim_some, sidecarMax,
      toxPassEncryptionExtraLength] <;> omega
  rw [hl, if_neg hfit, oqReadAll_plain hq, messages_eq_listing q]
  rcases hlist : q.listing with _ | ⟨e, _ | ⟨e', l⟩⟩
  · rfl
  · dsimp only [List.head?_cons]
    rw [messages_add_empty e.1 (hq.listing (by rw [hlist]; simp))]
    by_cases hfn : fn = e.1
    · simp [hfn]
    · simp [hfn, Ne.symm hfn]
  · rw [hlist] at h
    simp at h

/-- The file round trip restores the queue exactly when at most one message is queued. -/
theorem oq_file_restores_iff (hT : T.SparesPlain) (hk : ∀ k ∈ key, k.Invertible T) (hq : q.WF)
    (hsz : (oqPlain q).length ≤ sidecarMax) (mem : Bytes) :
    oqRestored T key mem q ↔ q.listing.length ≤ 1 :=
  ⟨oqRestored_length_le hT hk hq hsz, oqRestored_of_length_le hT hk hq⟩

namespace Instance

def queued (ms : List Bytes) : TTOfflineQueue := ms.foldl (fun q m => ttOqAdd q 0 m) .empty

theorem queued_wf (ms : List Bytes) : (queued ms).WF := by
  induction ms using List.reverseRecOn with
  | nil => exact .empty
  | append_singleton ms m ih =>
    rw [queued, List.foldl_append]
    exact ih.add 0 m

theorem second_message_lost :
    ((ttOqLoad encryptSave .empty (oqPlain (queued [[97], [98]])) [] none).f 0).messages = [[97]] ∧
    ((queued [[97], [98]]).f 0).messages = [[97], [98]] ∧
    ¬ oqRestored encryptSave none [] (queued [[97], [98]]) := by
  have hlist : (queued [[97], [98]]).listing = [(0, [97]), (0, [98])] := by decide +kernel
  have hsz : (oqPlain (queued [[97], [98]])).length ≤ sidecarMax := by
    rw [oqPlain, hlist]
    decide +kernel
  obtain ⟨file, hs, hl⟩ := ttOqLoad_save [] encryptSave_sparesPlain
    (show ∀ k ∈ (none : Option ToxPassKey), k.Invertible _ by simp) hsz
  cases hs
  refine ⟨?_, by decide +kernel, fun h => ?_⟩
  · rw [hl, if_neg (by simp only [Option.elim_none]; omega), oqReadAll_plain (queued_wf _), hlist]
    decide +kernel
  · have := oqRestored_length_le encryptSave_sparesPlain (by simp) (queued_wf _) hsz h
    rw [hlist] at this
    exact absurd this (by decide)

end Instance

theorem oq_file_restores_one :
    oqRestored Instance.encryptSave (some Instance.passKey) [] (Instance.queued [[97]]) := by
  have hlist : (Instance.queued [[97]]).listing = [(0, [97])] := by decide +kernel
  have hsz : (oqPlain (Instance.queued [[97]])).length ≤ sidecarMax := by
    rw [oqPlain, hlist]
    decide +kernel
  refine (oq_file_restores_iff Instance.encryptSave_sparesPlain ?_ (Instance.queued_wf _) hsz
    []).mpr (by rw [hlist]; decide)
  intro k hk
  cases hk
  exact Instance.passKey_invertible

end TkTox
