import TkTox.FrameCodec

/-!
The per-direction ratchet of `session.c`: a hash chain of message keys seeded from a root,
folds of the root, and the store of skipped keys for out-of-order delivery.
-/

namespace TkTox

@[simp] abbrev ttSessionMaxSkip : ℕ := 512
@[simp] abbrev ttSessionRekeyEvery : ℕ := 64
@[simp] abbrev ttSessionSkippedMax : ℕ := 96

structure TTRatchet where
  chain : Key
  seq : ℕ
  root : Key
  sinceFold : ℕ
  skipped : List (ℕ × Key)
deriving DecidableEq

def TTRatchet.zero : TTRatchet := ⟨Blob.zero 32, 0, Blob.zero 32, 0, []⟩

def seqNext (seq : ℕ) : ℕ := (seq + 1) % 2 ^ 32

variable (C : Crypto)

def deriveFromRoot (root : Key) (label : String) : Key :=
  ttKdfRoot C (root.bytes ++ [1]) (ascii label)

def sealKeyDerive (sk dhPeer adIk : Key) : Option Key :=
  (ttDhShared C sk dhPeer).map fun ss => ttKdfRoot C ss.bytes (ascii "tt-e2ee-seal" ++ adIk.bytes)

def ratchetReset (root : Key) (initiatorDir : Bool) : TTRatchet where
  chain := deriveFromRoot C root (if initiatorDir then "tt-e2ee-i" else "tt-e2ee-r")
  seq := 1
  root := root
  sinceFold := 0
  skipped := []

def ratchetFold (r : TTRatchet) (dh kem : Key) : TTRatchet :=
  let next := ttKdfRootStep C r.root dh kem
  { r with root := next.1, chain := next.2, sinceFold := 0, skipped := [] }

def nextChain (chain : Key) : Key := (ttKdfChainStep C chain).1

def chainMaterial (chain : Key) : Key × Nonce := ttKdfMsgMaterial C (ttKdfChainStep C chain).2

def sendAdvance (r : TTRatchet) : TTRatchet :=
  { r with chain := nextChain C r.chain, seq := seqNext r.seq }

def sendKey (r : TTRatchet) : (ℕ × Key × Nonce) × TTRatchet :=
  ((r.seq, chainMaterial C r.chain), sendAdvance C r)

def msgKeyAt (r : TTRatchet) (seq : ℕ) : Key × Nonce :=
  chainMaterial C ((nextChain C)^[seq - r.seq] r.chain)

def skippedAdd (r : TTRatchet) (seq : ℕ) (key : Key) : TTRatchet :=
  { r with skipped :=
      (if r.skipped.length ≥ ttSessionSkippedMax then r.skipped.drop 1 else r.skipped) ++
        [(seq, key)] }

def skippedTake (r : TTRatchet) (seq : ℕ) : Option (Key × TTRatchet) :=
  (r.skipped.find? fun e => e.1 == seq).map fun e =>
    (e.2, { r with skipped := r.skipped.eraseP fun e => e.1 == seq })

def recvSkipOne (r : TTRatchet) : TTRatchet :=
  let kept := skippedAdd { r with chain := nextChain C r.chain } r.seq (chainMaterial C r.chain).1
  { kept with seq := seqNext r.seq }

def recvCommit (r : TTRatchet) (seq : ℕ) : TTRatchet :=
  sendAdvance C ((recvSkipOne C)^[seq - r.seq] r)

variable {C}

@[simp] theorem sendAdvance_root (r : TTRatchet) : (sendAdvance C r).root = r.root := rfl

@[simp] theorem sendAdvance_seq (r : TTRatchet) : (sendAdvance C r).seq = seqNext r.seq := rfl

@[simp] theorem sendAdvance_sinceFold (r : TTRatchet) :
    (sendAdvance C r).sinceFold = r.sinceFold := rfl

@[simp] theorem sendAdvance_skipped (r : TTRatchet) : (sendAdvance C r).skipped = r.skipped := rfl

@[simp] theorem ratchetFold_seq (r : TTRatchet) (dh kem : Key) :
    (ratchetFold C r dh kem).seq = r.seq := rfl

@[simp] theorem ratchetFold_skipped (r : TTRatchet) (dh kem : Key) :
    (ratchetFold C r dh kem).skipped = [] := rfl

@[simp] theorem recvCommit_self (r : TTRatchet) : recvCommit C r r.seq = sendAdvance C r := by
  simp [recvCommit]

@[simp] theorem msgKeyAt_self (r : TTRatchet) : msgKeyAt C r r.seq = chainMaterial C r.chain := by
  simp [msgKeyAt]

theorem seqNext_lt (seq : ℕ) : seqNext seq < 2 ^ 32 := Nat.mod_lt _ (by norm_num)

end TkTox
