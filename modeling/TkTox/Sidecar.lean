import Mathlib.Data.List.GetD
import TkTox.AtRest
import TkTox.Decimal

/-!
What the text sidecars share: an entry begins with a line of two numbers, read by one `sscanf`
that does not know where the plaintext ends, and the whole is encrypted behind the same checks.
-/

namespace TkTox

variable {T : ToxEncryptSave} {key : Option ToxPassKey} {limit v w cut : ℕ} {mem rest pt : Bytes}

def headerLine (v w : ℕ) : Bytes := decimal v ++ 32 :: decimal w ++ [10]

def scanPair (cut : ℕ) (b : Bytes) : Option (ℕ × ℕ × ℕ) :=
  match scanUl b with
  | none => none
  | some (v, r) =>
    match scanUl (r.dropWhile isSpace) with
    | none => none
    | some (w, r') => some (v, w % cut, b.length - r'.length)

def readHeader (cut : ℕ) (mem b : Bytes) : Option (ℕ × ℕ × Bytes) :=
  match scanPair cut (b ++ mem) with
  | none => none
  | some (v, w, n) =>
    if n ≥ b.length ∨ b.getD n 0 ≠ 10 then none else some (v, w, b.drop (n + 1))

theorem readHeader_length {b b' : Bytes} (h : readHeader cut mem b = some (v, w, b')) :
    b'.length < b.length := by
  unfold readHeader at h
  split at h
  · cases h
  split_ifs at h
  cases h
  rw [List.length_drop]
  omega

theorem scanPair_header (hv : v < 2 ^ 64) (hw : w < 2 ^ 64) (rest : Bytes) :
    scanPair cut (headerLine v w ++ rest) =
      some (v, w % cut, (decimal v ++ 32 :: decimal w).length) := by
  have hsplit : headerLine v w ++ rest = decimal v ++ 32 :: (decimal w ++ 10 :: rest) := by
    simp [headerLine]
  have hscan1 : scanUl (decimal v ++ 32 :: (decimal w ++ 10 :: rest)) =
      some (v, 32 :: (decimal w ++ 10 :: rest)) := by
    have h := scanUl_decimal hv [] (32 :: (decimal w ++ 10 :: rest)) (by simp) (by simp [isDigit])
    simpa using h
  have hblank : (32 :: (decimal w ++ 10 :: rest)).dropWhile isSpace = decimal w ++ 10 :: rest := by
    obtain ⟨b, ds, hd⟩ := List.exists_cons_of_ne_nil (decimal_ne_nil w)
    have hs := (isDigit_not_space (decimal_digits w b (by rw [hd]; simp))).1
    rw [List.dropWhile_cons_of_pos (by decide), hd, List.cons_append,
      List.dropWhile_cons_of_neg (by simp [hs])]
  have hscan2 : scanUl (decimal w ++ 10 :: rest) = some (w, 10 :: rest) := by
    have h := scanUl_decimal hw [] (10 :: rest) (by simp) (by simp [isDigit])
    simpa using h
  unfold scanPair
  rw [hsplit, hscan1]
  dsimp only
  rw [hblank, hscan2]
  dsimp only
  congr 3
  simp only [List.length_append, List.length_cons]
  omega

theorem readHeader_header (hv : v < 2 ^ 64) (hw : w < 2 ^ 64) (mem rest : Bytes) :
    readHeader cut mem (headerLine v w ++ rest) = some (v, w % cut, rest) := by
  have hget : (headerLine v w ++ rest).getD (decimal v ++ 32 :: decimal w).length 0 = 10 := by
    rw [headerLine, List.append_assoc, List.getD_append_right _ _ _ _ le_rfl, Nat.sub_self]
    rfl
  have hdrop : (headerLine v w ++ rest).drop ((decimal v ++ 32 :: decimal w).length + 1) = rest := by
    rw [headerLine, List.append_assoc, ← List.drop_drop, List.drop_left]
    rfl
  have hlen : (decimal v ++ 32 :: decimal w).length < (headerLine v w ++ rest).length := by
    simp only [headerLine, List.length_append, List.length_cons, List.length_nil]
    omega
  unfold readHeader
  rw [List.append_assoc, scanPair_header hv hw]
  dsimp only
  rw [if_neg (not_or.mpr ⟨by omega, not_not.mpr hget⟩), hdrop]

def sidecarDecrypt (T : ToxEncryptSave) (key : Option ToxPassKey) (buf : Bytes) : Option Bytes :=
  if buf.length < toxPassEncryptionExtraLength then some buf
  else if T.isDataEncrypted buf = false then some buf
  else key.bind fun k => k.decrypt buf

def sidecarWriteUpTo (limit : ℕ) (key : Option ToxPassKey) (pt : Bytes) : Option Bytes :=
  match key with
  | none => some pt
  | some k => if pt.length = 0 ∨ pt.length > limit then none else k.encrypt pt

def encryptedLength (key : Option ToxPassKey) (pt : Bytes) : ℕ :=
  pt.length + key.elim 0 fun _ => toxPassEncryptionExtraLength

theorem sidecar_round_trip (limit : ℕ) (pt : Bytes) (hT : T.SparesPlain) (hk : ∀ k ∈ key, k.Invertible T)
    (hpt : [84, 84] <+: pt) (hlen : pt.length ≤ limit) :
    ∃ file, sidecarWriteUpTo limit key pt = some file ∧ file.length = encryptedLength key pt ∧
      sidecarDecrypt T key file = some pt := by
  have hne : pt ≠ [] := by
    rintro rfl
    have h := hpt.length_le
    simp at h
  cases key with
  | none =>
    refine ⟨pt, rfl, rfl, ?_⟩
    rw [sidecarDecrypt, if_pos (hT pt hpt), ite_self]
  | some k =>
    obtain ⟨ct, he, hl, hE, hd⟩ := hk k rfl pt hne
    have hpos : pt.length ≠ 0 := fun h => hne (List.length_eq_zero_iff.mp h)
    refine ⟨ct, ?_, hl, ?_⟩
    · simp only [sidecarWriteUpTo]
      rw [if_neg (by omega), he]
    · rw [sidecarDecrypt, if_neg (by omega), if_neg (by simp [hE])]
      exact hd

end TkTox
