import TkTox.Bytes

/-!
The primitives of `crypto/aead.c`, `crypto/kdf.c` and `crypto/kem.c` over libsodium and
the vendored sntrup761, which are the fields of `Crypto`. Random draws are arguments.
-/

namespace TkTox

@[simp] abbrev ttKey32 : ℕ := 32
@[simp] abbrev ttKemPk : ℕ := 1158
@[simp] abbrev ttKemSk : ℕ := 1763
@[simp] abbrev ttKemCt : ℕ := 1039
@[simp] abbrev ttMac16 : ℕ := 16
@[simp] abbrev ttNonce12 : ℕ := 12
@[simp] abbrev ttNonce24 : ℕ := 24

abbrev Key := Blob 32
abbrev KemPk := Blob 1158
abbrev KemSk := Blob 1763
abbrev KemCt := Blob 1039
abbrev Nonce := Blob 24

inductive TTCipher
  | xchacha
  | aesgcm
deriving DecidableEq, Repr

structure Crypto where
  gcmIsAvailable : Bool
  /-- ciphertext followed by the tag, as both libsodium ciphers write it -/
  aeadEncrypt : TTCipher → Key → Bytes → Bytes → Bytes → Bytes
  aeadDecrypt : TTCipher → Key → Bytes → Bytes → Bytes → Option Bytes
  scalarmultBase : Key → Key
  /-- `none` is the rejected all-zero output -/
  scalarmult : Key → Key → Option Key
  sntrup761Keypair : Bytes → KemPk × KemSk
  sntrup761Enc : Bytes → KemPk → KemCt × Key
  sntrup761Dec : KemCt → KemSk → Key
  /-- `generichash n key message` -/
  generichash : (n : ℕ) → Bytes → Bytes → Blob n

/-- The bytes drawn from `randombytes_buf` in one call of the session layer. -/
structure Draws where
  eph1 : Key
  eph2 : Key
  rekeyEph : Key
  kemSeed : Bytes
  encSeed : Bytes
  nonce : Nonce

def ascii (s : String) : Bytes := s.toList.map fun c => UInt8.ofNat c.toNat

variable (C : Crypto)

def ttAeadGcmAvailable : Bool := C.gcmIsAvailable

def ttAeadSeal (c : TTCipher) (key : Key) (nonce ad pt : Bytes) : Option Bytes :=
  if c = .aesgcm ∧ ttAeadGcmAvailable C = false then none
  else
    let out := C.aeadEncrypt c key nonce ad pt
    if out.length = pt.length + ttMac16 then some out else none

def ttAeadOpen (c : TTCipher) (key : Key) (nonce ad ct : Bytes) : Option Bytes :=
  if ct.length < ttMac16 then none
  else if c = .aesgcm ∧ ttAeadGcmAvailable C = false then none
  else C.aeadDecrypt c key nonce ad ct

def ttDhKeygen (sk : Key) : Key × Key := (C.scalarmultBase sk, sk)

def ttDhShared (sk pk : Key) : Option Key := C.scalarmult sk pk

def ttKemKeygen (seed : Bytes) : KemPk × KemSk := C.sntrup761Keypair seed

def ttKemEnc (seed : Bytes) (pk : KemPk) : KemCt × Key := C.sntrup761Enc seed pk

def ttKemDec (ct : KemCt) (sk : KemSk) : Key := C.sntrup761Dec ct sk

def saltKey : Bytes := ascii "TTZ1-root-extract" ++ List.replicate 15 0

def ttKdfRoot (ikm ctx : Bytes) : Key := C.generichash 32 saltKey (ikm ++ ctx)

def halves (b : Blob 64) : Key × Key := (Blob.read 32 b.bytes, Blob.read 32 (b.bytes.drop 32))

def ttKdfRootStep (root dh kem : Key) : Key × Key :=
  halves (C.generichash 64 (ascii "TTZ1-rs" ++ [0]) (root.bytes ++ dh.bytes ++ kem.bytes))

def ttKdfChainStep (chain : Key) : Key × Key :=
  (halves (C.generichash 64 (ascii "TTZ1-ch" ++ [0]) chain.bytes)).swap

def ttKdfMsgMaterial (msgKey : Key) : Key × Nonce :=
  let out := C.generichash 56 (ascii "TTZ1-mk" ++ [0]) msgKey.bytes
  (Blob.read 32 out.bytes, Blob.read 24 (out.bytes.drop 32))

/-- libsodium's AEAD contract: a tag of sixteen bytes, and what was sealed opens. -/
structure Crypto.AeadCorrect (C : Crypto) : Prop where
  encrypt_length : ∀ c k n ad pt, (C.aeadEncrypt c k n ad pt).length = pt.length + 16
  decrypt_encrypt : ∀ c k n ad pt, C.aeadDecrypt c k n ad (C.aeadEncrypt c k n ad pt) = some pt

/-- X25519 is commutative on generated keys and never rejects them. -/
def Crypto.DhCommutes (C : Crypto) : Prop :=
  ∀ a b, ∃ z, C.scalarmult a (C.scalarmultBase b) = some z ∧
    C.scalarmult b (C.scalarmultBase a) = some z

/-- Decapsulation with the matching secret key returns the encapsulated secret. -/
def Crypto.KemCorrect (C : Crypto) : Prop :=
  ∀ seed r, C.sntrup761Dec (C.sntrup761Enc r (C.sntrup761Keypair seed).1).1
    (C.sntrup761Keypair seed).2 = (C.sntrup761Enc r (C.sntrup761Keypair seed).1).2

/-- Whether X25519 rejects a point depends on the point alone (it is of low order). -/
def Crypto.LowOrderOnly (C : Crypto) : Prop :=
  ∀ a b p, C.scalarmult a p = none → C.scalarmult b p = none

variable {C}

theorem ttAeadOpen_seal (h : C.AeadCorrect) {c : TTCipher} {key : Key} {nonce ad pt ct : Bytes}
    (hs : ttAeadSeal C c key nonce ad pt = some ct) : ttAeadOpen C c key nonce ad ct = some pt := by
  simp only [ttAeadSeal] at hs
  split_ifs at hs with hg hl
  cases hs
  have hc : ¬ (C.aeadEncrypt c key nonce ad pt).length < ttMac16 := by rw [hl]; omega
  rw [ttAeadOpen, if_neg hc, if_neg hg]
  exact h.decrypt_encrypt c key nonce ad pt

theorem ttAeadSeal_available (h : C.AeadCorrect) {c : TTCipher} (key : Key) (nonce ad pt : Bytes)
    (hc : c = .aesgcm → C.gcmIsAvailable = true) :
    ttAeadSeal C c key nonce ad pt = some (C.aeadEncrypt c key nonce ad pt) := by
  have hg : ¬ (c = .aesgcm ∧ ttAeadGcmAvailable C = false) := by
    rintro ⟨rfl, hf⟩
    simp [ttAeadGcmAvailable, hc rfl] at hf
  rw [ttAeadSeal, if_neg hg]
  simp only [h.encrypt_length, ttMac16, if_true]

theorem ttAeadSeal_length {c : TTCipher} {key : Key} {nonce ad pt ct : Bytes}
    (hs : ttAeadSeal C c key nonce ad pt = some ct) : ct.length = pt.length + 16 := by
  simp only [ttAeadSeal] at hs
  split_ifs at hs with hg hl
  cases hs
  exact hl

end TkTox
