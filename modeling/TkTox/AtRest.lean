import TkTox.Bytes

/-!
The at-rest encryption of the sidecar files over toxencryptsave, and the tail every save
function shares.
-/

namespace TkTox

@[simp] abbrev toxPassEncryptionExtraLength : ℕ := 80
@[simp] abbrev sidecarMax : ℕ := 4 * 1024 * 1024

structure ToxEncryptSave where
  isDataEncrypted : Bytes → Bool

structure ToxPassKey where
  encrypt : Bytes → Option Bytes
  decrypt : Bytes → Option Bytes

/-- The magic number of an encrypted blob is not the start of a sidecar magic. -/
def ToxEncryptSave.SparesPlain (T : ToxEncryptSave) : Prop :=
  ∀ b, [84, 84] <+: b → T.isDataEncrypted b = false

/-- What was encrypted is recognised, is eighty bytes longer and decrypts. -/
def ToxPassKey.Invertible (T : ToxEncryptSave) (k : ToxPassKey) : Prop :=
  ∀ pt, pt ≠ [] → ∃ ct, k.encrypt pt = some ct ∧
    ct.length = pt.length + toxPassEncryptionExtraLength ∧ T.isDataEncrypted ct = true ∧
    k.decrypt ct = some pt

def sidecarWrite (key : Option ToxPassKey) (pt : Bytes) : Option Bytes :=
  match key with
  | none => some pt
  | some k => if pt.length = 0 ∨ pt.length > sidecarMax then none else k.encrypt pt

namespace Instance

def saveMagic : Bytes := [116, 111, 120, 69, 115, 97, 118, 101]

def encryptSave : ToxEncryptSave := ⟨fun b => b.take 8 == saveMagic⟩

def passKey : ToxPassKey where
  encrypt pt := some (saveMagic ++ List.replicate 72 0 ++ pt)
  decrypt ct := some (ct.drop 80)

theorem encryptSave_sparesPlain : encryptSave.SparesPlain := by
  rintro b ⟨t, rfl⟩
  have h : ([84, 84] ++ t).take 8 ≠ saveMagic := by simp [saveMagic]
  simpa [encryptSave] using h

theorem passKey_invertible : passKey.Invertible encryptSave := by
  intro pt _
  refine ⟨_, rfl, ?_, ?_, ?_⟩
  · simp [saveMagic]
  · simp [encryptSave, saveMagic]
  · have hl : (saveMagic ++ List.replicate 72 (0 : UInt8)).length = 80 := by decide
    simp only [passKey, Option.some.injEq]
    exact List.drop_left' hl

end Instance

end TkTox
