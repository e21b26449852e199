import Mathlib.Data.List.TakeWhile
import TkTox.AtRest
import TkTox.Crypto
import TkTox.Decimal
import TkTox.Ring

/-!
The offline queue of `offline_queue.c`: a ring of texts for every friend, and the file it is
kept in.
-/

namespace TkTox

@[simp] abbrev ttOqMaxPerFriend : ℕ := 64
@[simp] abbrev toxMaxMessageLength : ℕ := 1372
@[simp] abbrev ttOqMagic : Bytes := [84, 84, 79, 81, 49]

def cString (b : Bytes) : Bytes := b.takeWhile (· ≠ 0)

theorem cString_eq_self_iff {b : Bytes} : cString b = b ↔ 0 ∉ b := by
  rw [cString, List.takeWhile_eq_self_iff]
  constructor
  · intro h hz
    simpa using h 0 hz
  · intro h x hx
    rw [decide_eq_true_eq]
    rintro rfl
    exact h hx

structure TTOqFriend where
  msgs : Option (Fin ttOqMaxPerFriend → Bytes)
  head : ℕ
  count : ℕ

structure TTOfflineQueue where
  f : Fin 256 → TTOqFriend

def TTOqFriend.empty : TTOqFriend := ⟨none, 0, 0⟩

def TTOfflineQueue.empty : TTOfflineQueue := ⟨fun _ => .empty⟩

def TTOqFriend.messages (fr : TTOqFriend) : List Bytes :=
  match fr.msgs with
  | none => []
  | some m => Ring.entries m fr.head fr.count

def TTOqFriend.add (fr : TTOqFriend) (text : Bytes) : TTOqFriend :=
  let m := fr.msgs.getD fun _ => []
  let fr := if fr.count = ttOqMaxPerFriend then
      { fr with head := (fr.head + 1) % ttOqMaxPerFriend, count := fr.count - 1 }
    else fr
  { fr with
    msgs := some (Function.update m (Ring.idx _ (fr.head + fr.count))
      ((cString text).take toxMaxMessageLength))
    count := fr.count + 1 }

theorem TTOqFriend.messages_add (fr : TTOqFriend) (text : Bytes)
    (hc : fr.count ≤ ttOqMaxPerFriend) (hm : fr.msgs = none → fr.count = 0) :
    (fr.add text).messages =
      (if fr.count = ttOqMaxPerFriend then fr.messages.tail else fr.messages) ++
        [(cString text).take toxMaxMessageLength] := by
  have hmsgs : fr.messages = Ring.entries (fr.msgs.getD fun _ => []) fr.head fr.count := by
    unfold TTOqFriend.messages
    cases h : fr.msgs with
    | none => simp [hm h]
    | some m => rfl
  rw [hmsgs]
  unfold TTOqFriend.add
  by_cases hf : fr.count = ttOqMaxPerFriend
  · simp only [if_pos hf, TTOqFriend.messages]
    rw [Ring.entries_push _ _ (by simp only [ttOqMaxPerFriend] at hf ⊢; omega), Ring.entries_pop]
  · simp only [if_neg hf, TTOqFriend.messages]
    rw [Ring.entries_push _ _ (by simp only [ttOqMaxPerFriend] at hc hf ⊢; omega)]

def ttOqAdd (q : TTOfflineQueue) (fn : ℕ) (text : Bytes) : TTOfflineQueue :=
  if h : fn < 256 then
    if cString text = [] then q
    else ⟨Function.update q.f ⟨fn, h⟩ ((q.f ⟨fn, h⟩).add text)⟩
  else q

def oqEntry (fn : ℕ) (text : Bytes) : Bytes :=
  decimal fn ++ [32] ++ decimal text.length ++ [10] ++ text

def TTOfflineQueue.listing (q : TTOfflineQueue) : List (Fin 256 × Bytes) :=
  (List.finRange 256).flatMap fun fn => (q.f fn).messages.map fun m => (fn, m)

def oqPlain (q : TTOfflineQueue) : Bytes :=
  ttOqMagic ++ q.listing.flatMap fun e => if e.2.length = 0 then [] else oqEntry e.1 e.2

def ttOqSave (q : TTOfflineQueue) (key : Option ToxPassKey) : Option Bytes :=
  sidecarWrite key (oqPlain q)

def oqDecrypt (T : ToxEncryptSave) (key : Option ToxPassKey) (buf : Bytes) : Option Bytes :=
  if buf.length < toxPassEncryptionExtraLength then some buf
  else if T.isDataEncrypted buf = false then some buf
  else key.bind fun k => k.decrypt buf

def oqReadEntry (mem b : Bytes) : Option (ℕ × Bytes × Bytes) :=
  if b.length < 5 then none
  else if b.take 5 ≠ ttOqMagic then none
  else
    let b := b.drop 5
    match scanU (b ++ mem) with
    | none => none
    | some (fn, r1) =>
      match scanU (r1.dropWhile isSpace) with
      | none => none
      | some (len, r2) =>
        if fn ≥ 256 ∨ len = 0 ∨ len > toxMaxMessageLength then none
        else
          let n := (b ++ mem).length - r2.length
          if n ≥ b.length ∨ b.getD n 0 ≠ 10 then none
          else
            let b := b.drop (n + 1)
            if b.length < len then none else some (fn, b.take len, b.drop len)

theorem oqReadEntry_length {mem b rest : Bytes} {fn : ℕ} {text : Bytes}
    (h : oqReadEntry mem b = some (fn, text, rest)) : rest.length < b.length := by
  unfold oqReadEntry at h
  split_ifs at h with h1 h2
  dsimp only at h
  split at h
  · cases h
  split at h
  · cases h
  split_ifs at h
  cases h
  simp only [List.length_drop]
  omega

def oqReadAll (mem b : Bytes) (q : TTOfflineQueue) : TTOfflineQueue :=
  match _h : oqReadEntry mem b with
  | none => q
  | some (fn, text, rest) => oqReadAll mem rest (ttOqAdd q fn text)
termination_by b.length
decreasing_by exact oqReadEntry_length _h

def ttOqLoad (T : ToxEncryptSave) (q : TTOfflineQueue) (file mem : Bytes)
    (key : Option ToxPassKey) : TTOfflineQueue :=
  if file.length = 0 ∨ file.length > sidecarMax then q
  else match oqDecrypt T key file with
  | none => q
  | some pt => oqReadAll mem pt q

end TkTox
