import TkTox.SessionRun

/-!
A small concrete instance of the primitives. It meets every contract the development assumes
of libsodium and sntrup761, so the assumptions can be met together, and it can be evaluated.
-/

namespace TkTox.Instance

def addBytes (a b : Bytes) : Bytes := List.zipWith (· + ·) a b

def base (sk : Key) : Key := Blob.read 32 (1 :: sk.bytes.tail)

def shared (sk pk : Key) : Option Key :=
  if pk = Blob.zero 32 then none
  else some (Blob.read 32 (0 :: addBytes sk.bytes.tail pk.bytes.tail))

def kemSeed (seed : Bytes) : Key := Blob.read 32 seed

def kemSecret (r pk : Bytes) : Key :=
  Blob.read 32 (addBytes (Blob.read 32 r).bytes (Blob.read 32 pk).bytes)

def encrypt (key : Key) (pt : Bytes) : Bytes := pt ++ key.bytes.take 16

def decrypt (key : Key) (ct : Bytes) : Option Bytes :=
  if ct.drop (ct.length - 16) = key.bytes.take 16 then some (ct.take (ct.length - 16)) else none

def digest (key msg : Bytes) : ℕ :=
  (key ++ msg).foldl (fun h b => (h * 263 + b.toNat + 1) % 2305843009213693951) 7

def hash (n : ℕ) (key msg : Bytes) : Blob n :=
  Blob.read n ((List.range n).map fun i => UInt8.ofNat (digest key msg / 256 ^ (i % 7) + i / 32))

def crypto : Crypto where
  gcmIsAvailable := false
  aeadEncrypt _ key _ _ pt := encrypt key pt
  aeadDecrypt _ key _ _ ct := decrypt key ct
  scalarmultBase := base
  scalarmult := shared
  sntrup761Keypair seed := (Blob.read 1158 (kemSeed seed).bytes, Blob.read 1763 (kemSeed seed).bytes)
  sntrup761Enc r pk := (Blob.read 1039 (kemSeed r).bytes, kemSecret r pk.bytes)
  sntrup761Dec ct sk := kemSecret ct.bytes sk.bytes
  generichash := hash

theorem base_bytes (sk : Key) : (base sk).bytes = 1 :: sk.bytes.tail := by
  have hl : (1 :: sk.bytes.tail).length = 32 := by simp
  rw [base, Blob.bytes_read hl.ge, List.take_of_length_le hl.le]

theorem base_ne_zero (sk : Key) : base sk ≠ Blob.zero 32 := by
  intro h
  have hb := base_bytes sk
  rw [h] at hb
  exact absurd (List.head_eq_of_cons_eq hb) (by decide)

theorem aeadCorrect : crypto.AeadCorrect where
  encrypt_length c k n ad pt := by simp [crypto, encrypt]
  decrypt_encrypt c k n ad pt := by
    have hl : (encrypt k pt).length - 16 = pt.length := by simp [encrypt]
    simp only [crypto, decrypt, hl]
    simp [encrypt]

theorem dhCommutes : crypto.DhCommutes := by
  intro a b
  refine ⟨Blob.read 32 (0 :: addBytes a.bytes.tail b.bytes.tail), ?_, ?_⟩
  · simp only [crypto, shared, if_neg (base_ne_zero b), base_bytes, List.tail_cons]
  · simp only [crypto, shared, if_neg (base_ne_zero a), base_bytes, List.tail_cons, addBytes]
    rw [List.zipWith_comm_of_comm UInt8.add_comm]

theorem read_read {m n : ℕ} (b : Bytes) (h : m ≤ n) :
    Blob.read m (Blob.read n (Blob.read m b).bytes).bytes = Blob.read m b := by
  have hp : (Blob.read n (Blob.read m b).bytes).bytes =
      (Blob.read m b).bytes ++ List.replicate (n - m) 0 := by
    change ((Blob.read m b).bytes ++ List.replicate n 0).take n = _
    rw [List.take_append, Blob.bytes_length, List.take_of_length_le (by simpa using h),
      List.take_replicate, Nat.min_eq_left (Nat.sub_le n m)]
  rw [hp, Blob.read_append]

theorem kemCorrect : crypto.KemCorrect := by
  intro seed r
  simp only [crypto, kemSecret, kemSeed]
  rw [read_read r (by decide), read_read seed (by decide), read_read seed (by decide)]

theorem lowOrderOnly : crypto.LowOrderOnly := by
  intro a b p h
  simp only [crypto, shared] at h ⊢
  split_ifs at h with hp
  exact if_pos hp

/-! Two friends and the draws of their calls. -/

def aliceSk : Key := Blob.read 32 [1, 2]
def bobSk : Key := Blob.read 32 [1, 3]
def aliceEnv : TTE2EEEnv := ⟨aliceSk, base aliceSk, some (base bobSk)⟩
def bobEnv : TTE2EEEnv := ⟨bobSk, base bobSk, some (base aliceSk)⟩

def draws (n : UInt8) : Draws :=
  ⟨Blob.read 32 [2, n, 1], Blob.read 32 [2, n, 2], Blob.read 32 [2, n, 3], [2, n, 4], [2, n, 5],
    Blob.read 24 [n]⟩

/-! A completed handshake between them. -/

def aliceStarted : TTSession × Except TTE2EEStatus Bytes :=
  ttSessionStart crypto .zero aliceEnv (draws 1) 0 ttFrameMax

def initFrame : Bytes := okBytes aliceStarted.2

def bobReplied : TTSession × Except TTE2EEStatus Bytes :=
  ttSessionReply crypto (ttSessionFeed crypto .zero bobEnv (draws 2) initFrame ttFrameDataMax).session
    bobEnv (draws 3) ttFrameMax

def replyFrame : Bytes := okBytes bobReplied.2

def bob : TTSession := bobReplied.1

def alice : TTSession :=
  (ttSessionFeed crypto aliceStarted.1 aliceEnv (draws 4) replyFrame ttFrameDataMax).session

end TkTox.Instance
