import TkTox.Ratchet
import TkTox.SentBuffer

/-!
The per-friend session of `session.c`: its state, the handshake frames it builds and the
feeding of received frames. Every call takes the random bytes it draws.
-/

namespace TkTox

@[simp] abbrev ttSessionPendingMax : ℕ := 4
@[simp] abbrev ttSessionHdrKem : ℕ := 96

inductive TTE2EEStatus
  | noSession
  | noKey
  | decodeFail
  | badId
  | seqTooOld
  | replay
  | busy
  | badState
  | carrier
deriving DecidableEq, Repr

/-- Transport identity; `peerPk` is absent when the number is not a friend. -/
structure TTE2EEEnv where
  selfSk : Key
  selfPk : Key
  peerPk : Option Key

structure TTRekey where
  ephSk : Key
  ephPk : Key
  haveKem : Bool
  kemPk : KemPk
  kemSk : KemSk
  peerHave : Bool
  peerKemPk : KemPk
  peerEphPk : Key
  rekeyDue : Bool
  awaitingPeer : Bool
  published : Bool
  postFoldPublish : Bool
  publishBack : Bool
  carrier : Bytes
deriving DecidableEq

def TTRekey.zero : TTRekey where
  ephSk := Blob.zero 32
  ephPk := Blob.zero 32
  haveKem := false
  kemPk := Blob.zero 1158
  kemSk := Blob.zero 1763
  peerHave := false
  peerKemPk := Blob.zero 1158
  peerEphPk := Blob.zero 32
  rekeyDue := false
  awaitingPeer := false
  published := false
  postFoldPublish := false
  publishBack := false
  carrier := []

structure TTReliable where
  sent : TTSentBuf
  recvAcked : ℕ
  ackDue : Bool
  resendReqPending : Bool
  resendReqGen : ℕ
  resendReqFrom : ℕ
  resendRepPending : Bool
  resendRepGen : ℕ
  resendRepFrom : ℕ
  resendRepPos : ℕ
deriving DecidableEq

def TTReliable.zero : TTReliable := ⟨.zero, 0, false, false, 0, 0, false, 0, 0, 0⟩

/-- The stash `pending` holds `n_pending` texts; `reply_cache` and `last_in` are their live bytes. -/
structure TTSession where
  active : Bool
  lossy : Bool
  iAmInitiator : Bool
  initPending : Bool
  replyDue : Bool
  initAt : ℤ
  send : TTRatchet
  recv : TTRatchet
  rekey : TTRekey
  root : Key
  ephA2Sk : Key
  ephA2Pk : Key
  ephA3Sk : Key
  ephA3Pk : Key
  initSeal : Key
  kemPk : KemPk
  kemSk : KemSk
  ephB1Sk : Key
  ephB1Pk : Key
  ephB3Sk : Key
  ephB3Pk : Key
  kemCt : KemCt
  replyCache : Bytes
  lastIn : Bytes
  noSessionNotified : Bool
  rel : TTReliable
  pending : List Bytes
deriving DecidableEq

def TTSession.zero : TTSession where
  active := false
  lossy := false
  iAmInitiator := false
  initPending := false
  replyDue := false
  initAt := 0
  send := .zero
  recv := .zero
  rekey := .zero
  root := Blob.zero 32
  ephA2Sk := Blob.zero 32
  ephA2Pk := Blob.zero 32
  ephA3Sk := Blob.zero 32
  ephA3Pk := Blob.zero 32
  initSeal := Blob.zero 32
  kemPk := Blob.zero 1158
  kemSk := Blob.zero 1763
  ephB1Sk := Blob.zero 32
  ephB1Pk := Blob.zero 32
  ephB3Sk := Blob.zero 32
  ephB3Pk := Blob.zero 32
  kemCt := Blob.zero 1039
  replyCache := []
  lastIn := []
  noSessionNotified := false
  rel := .zero
  pending := []

def reestablishPreserve (s : TTSession) : TTSession :=
  { TTSession.zero with pending := s.pending, rel := s.rel, lossy := s.lossy }

variable (C : Crypto)

def controlKey (root : Key) : Key := ttKdfRoot C (root.bytes ++ [1]) (ascii "tt-e2ee-ctl" ++ [0])

def relGen (root : Key) : ℕ := readU32 (deriveFromRoot C root "tt-e2ee-gen").bytes

def handshakeRoot (f1 f2 f3 kemSs ika ikb : Key) : Key :=
  ttKdfRoot C (f1.bytes ++ f2.bytes ++ f3.bytes ++ kemSs.bytes)
    (ascii "tt-e2ee-root:" ++ ika.bytes ++ ikb.bytes)

def establish (s : TTSession) (f1 f2 f3 kemSs ika ikb : Key) (initiator : Bool) (ρ : Draws) :
    TTSession :=
  let root := handshakeRoot C f1 f2 f3 kemSs ika ikb
  let eph := ttDhKeygen C ρ.rekeyEph
  let kem := ttKemKeygen C ρ.kemSeed
  { s with
    root := root
    send := ratchetReset C root initiator
    recv := ratchetReset C root !initiator
    rekey := { s.rekey with
      ephPk := eph.1, ephSk := eph.2, kemPk := kem.1, kemSk := kem.2, haveKem := true } }

def buildInit (s : TTSession) (env : TTE2EEEnv) (ρ : Draws) (cap : ℕ) : Option Bytes :=
  ttFrameEncode C cap .init 0 ttFrameFlagKem s.initSeal ρ.nonce
    (env.selfPk.bytes ++ s.ephA2Pk.bytes ++ s.ephA3Pk.bytes ++ s.kemPk.bytes) []

def ttSessionStart (s : TTSession) (env : TTE2EEEnv) (ρ : Draws) (now : ℤ) (cap : ℕ) :
    TTSession × Except TTE2EEStatus Bytes :=
  match env.peerPk with
  | none => (s, .error .noKey)
  | some peerPk =>
    let a2 := ttDhKeygen C ρ.eph1
    let a3 := ttDhKeygen C ρ.eph2
    let kem := ttKemKeygen C ρ.kemSeed
    let s := { reestablishPreserve s with
      iAmInitiator := true, initPending := true, initAt := now
      ephA2Pk := a2.1, ephA2Sk := a2.2, ephA3Pk := a3.1, ephA3Sk := a3.2
      kemPk := kem.1, kemSk := kem.2 }
    match sealKeyDerive C s.ephA2Sk peerPk peerPk with
    | none => (s, .error .badId)
    | some key =>
      let s := { s with initSeal := key }
      match buildInit C s env ρ cap with
      | none => (s, .error .badState)
      | some f => (s, .ok f)

def ttSessionReply (s : TTSession) (env : TTE2EEEnv) (ρ : Draws) (cap : ℕ) :
    TTSession × Except TTE2EEStatus Bytes :=
  match env.peerPk with
  | none => (s, .error .noKey)
  | some peerPk =>
    if s.replyDue = false then
      if s.replyCache = [] ∨ cap < s.replyCache.length then (s, .error .badState)
      else (s, .ok s.replyCache)
    else
      let s := { s with replyDue := false }
      match sealKeyDerive C s.ephB1Sk peerPk peerPk with
      | none => (s, .error .badId)
      | some key =>
        match ttFrameEncode C cap .reply 0 ttFrameFlagKem key ρ.nonce
          (env.selfPk.bytes ++ s.ephB1Pk.bytes ++ s.ephB3Pk.bytes ++ s.kemCt.bytes) [] with
        | none => (s, .error .badState)
        | some f => ({ s with replyCache := f }, .ok f)

def ttSessionTick (s : TTSession) (env : TTE2EEEnv) (ρ : Draws) (now : ℤ) (cap : ℕ) :
    TTSession × Except TTE2EEStatus Bytes :=
  if s.initPending = false ∨ now - s.initAt < 5 then (s, .ok [])
  else
    let s := { s with initAt := now }
    (s, .ok ((buildInit C s env ρ cap).getD []))

/-- `ret` is the plaintext (empty for a consumed control or handshake frame) or the status. -/
structure FeedResult where
  session : TTSession
  ret : Except TTE2EEStatus Bytes
  handshaked : Bool

def hdrIk (hdr : Bytes) : Key := Blob.read 32 hdr
def hdrEph1 (hdr : Bytes) : Key := Blob.read 32 (hdr.drop 32)
def hdrEph2 (hdr : Bytes) : Key := Blob.read 32 (hdr.drop 64)
def hdrKemPk (hdr : Bytes) : KemPk := Blob.read 1158 (hdr.drop ttSessionHdrKem)
def hdrKemCt (hdr : Bytes) : KemCt := Blob.read 1039 (hdr.drop ttSessionHdrKem)

def initOpens (env : TTE2EEEnv) (input : Bytes) (d : TTFrameDesc) : Bool :=
  match sealKeyDerive C env.selfSk (hdrEph1 d.hdr) env.selfPk with
  | none => false
  | some key =>
    match ttFrameDecode C input key 16 with
    | none => false
    | some (dd, pt) => pt.length == 0 && dd.seq == 0

def dhLegs (sk1 pk1 sk2 pk2 sk3 pk3 : Key) : Option (Key × Key × Key) :=
  match ttDhShared C sk1 pk1 with
  | none => none
  | some f1 =>
    match ttDhShared C sk2 pk2 with
    | none => none
    | some f2 => (ttDhShared C sk3 pk3).map fun f3 => (f1, f2, f3)

def responderScratch (s : TTSession) (ρ : Draws) (key : Key) (hdr : Bytes) : TTSession :=
  let b1 := ttDhKeygen C ρ.eph1
  let b3 := ttDhKeygen C ρ.eph2
  { s with
    initSeal := key, ephB1Pk := b1.1, ephB1Sk := b1.2, ephB3Pk := b3.1, ephB3Sk := b3.2
    kemCt := (ttKemEnc C ρ.encSeed (hdrKemPk hdr)).1 }

def acceptInit (s : TTSession) (env : TTE2EEEnv) (peerPk : Key) (ρ : Draws) (input : Bytes)
    (d : TTFrameDesc) : FeedResult :=
  match sealKeyDerive C env.selfSk (hdrEph1 d.hdr) env.selfPk with
  | none => ⟨s, .error .badId, false⟩
  | some key =>
    match ttFrameDecode C input key 16 with
    | none => ⟨s, .error .decodeFail, false⟩
    | some (d, _) =>
      let s := responderScratch C s ρ key d.hdr
      let ss := (ttKemEnc C ρ.encSeed (hdrKemPk d.hdr)).2
      match dhLegs C s.ephB1Sk peerPk env.selfSk (hdrEph1 d.hdr) s.ephB3Sk (hdrEph2 d.hdr) with
      | none => ⟨s, .error .badId, false⟩
      | some (f1, f2, f3) =>
        ⟨{ establish C s f1 f2 f3 ss peerPk env.selfPk false ρ with
            iAmInitiator := false, active := true, replyDue := true, initPending := false },
          .ok [], true⟩

def yieldsTo (s : TTSession) (env : TTE2EEEnv) (d : TTFrameDesc) : Bool :=
  s.active || decide (d.hdr.take 32 < env.selfPk.bytes)

def feedInit (s : TTSession) (env : TTE2EEEnv) (ρ : Draws) (input : Bytes) (d : TTFrameDesc) :
    FeedResult :=
  if d.hdr.length ≠ ttHdrInit then ⟨s, .error .decodeFail, false⟩
  else match env.peerPk with
  | none => ⟨s, .error .badId, false⟩
  | some peerPk =>
    if hdrIk d.hdr ≠ peerPk then ⟨s, .error .badId, false⟩
    else if s.active && !s.iAmInitiator && initOpens C env input d then ⟨s, .ok [], true⟩
    else if s.iAmInitiator && (s.active || s.initPending) then
      if yieldsTo s env d then acceptInit C (reestablishPreserve s) env peerPk ρ input d
      else ⟨s, .ok [], false⟩
    else acceptInit C s env peerPk ρ input d

def feedReply (s : TTSession) (env : TTE2EEEnv) (ρ : Draws) (input : Bytes) (d : TTFrameDesc) :
    FeedResult :=
  if s.initPending = false ∨ s.active then ⟨s, .ok [], false⟩
  else if d.hdr.length ≠ ttHdrReply then ⟨s, .error .decodeFail, false⟩
  else match env.peerPk with
  | none => ⟨s, .error .badId, false⟩
  | some peerPk =>
    if hdrIk d.hdr ≠ peerPk then ⟨s, .error .badId, false⟩
    else match sealKeyDerive C env.selfSk (hdrEph1 d.hdr) env.selfPk with
    | none => ⟨s, .error .badId, false⟩
    | some key =>
      match ttFrameDecode C input key 16 with
      | none => ⟨s, .error .decodeFail, false⟩
      | some (d, _) =>
        match dhLegs C env.selfSk (hdrEph1 d.hdr) s.ephA2Sk peerPk s.ephA3Sk (hdrEph2 d.hdr) with
        | none => ⟨s, .error .badId, false⟩
        | some (f1, f2, f3) =>
          let ss := ttKemDec C (hdrKemCt d.hdr) s.kemSk
          ⟨{ establish C s f1 f2 f3 ss env.selfPk peerPk true ρ with
              initPending := false, iAmInitiator := true, active := true }, .ok [], true⟩

def feedControl (s : TTSession) (type : TTFrameType) (input : Bytes) (d : TTFrameDesc) :
    FeedResult :=
  if s.active = false then ⟨s, .error .noSession, false⟩
  else if s.lossy then ⟨s, .error .decodeFail, false⟩
  else if d.hdr.length ≠ 0 then ⟨s, .error .decodeFail, false⟩
  else match ttFrameDecode C input (controlKey C s.root) 16 with
  | none => ⟨s, .error .decodeFail, false⟩
  | some (_, payload) =>
    if payload.length ≠ 8 then ⟨s, .error .decodeFail, false⟩
    else
      let a := readU32 payload
      let b := readU32 (payload.drop 4)
      if type = .ack then
        ⟨{ s with rel := { s.rel with sent := relSentAck s.rel.sent b a } }, .ok [], false⟩
      else
        ⟨{ s with rel := { s.rel with
            resendRepPending := true, resendRepGen := a, resendRepFrom := b, resendRepPos := 0 } },
          .ok [], false⟩

def recvKey (r : TTRatchet) (seq : ℕ) : Except TTE2EEStatus (Key × Option TTRatchet) :=
  if seq = r.seq then .ok ((msgKeyAt C r seq).1, none)
  else if seq > r.seq then
    if seq - r.seq ≥ ttSessionMaxSkip then .error .seqTooOld
    else .ok ((msgKeyAt C r seq).1, none)
  else match skippedTake r seq with
  | none => .error .replay
  | some (key, r') => .ok (key, some r')

def ackMark (s : TTSession) : TTSession :=
  let delivered := (s.recv.seq + (2 ^ 32 - 1)) % 2 ^ 32
  if s.lossy = false ∧ delivered > s.rel.recvAcked then
    { s with rel := { s.rel with recvAcked := delivered, ackDue := true } }
  else s

def dataEphPk (hdr : Bytes) : Key := Blob.read 32 (hdr.drop ttHdrDataDhOff)
def dataKemCt (hdr : Bytes) : KemCt := Blob.read 1039 hdr
def pubKemPk (hdr : Bytes) : KemPk := Blob.read 1158 hdr
def pubEphPk (hdr : Bytes) : Key := Blob.read 32 (hdr.drop ttKemPk)

def applyRekey (s : TTSession) (hdr : Bytes) (ρ : Draws) : TTSession :=
  let ss := ttKemDec C (dataKemCt hdr) s.rekey.kemSk
  match ttDhShared C s.rekey.ephSk (dataEphPk hdr) with
  | none => s
  | some dh =>
    let eph := ttDhKeygen C ρ.rekeyEph
    let kem := ttKemKeygen C ρ.kemSeed
    { s with
      recv := ratchetFold C s.recv dh ss
      rekey := { s.rekey with
        peerEphPk := dataEphPk hdr
        ephPk := eph.1, ephSk := eph.2, kemPk := kem.1, kemSk := kem.2
        haveKem := true, published := false, postFoldPublish := true } }

def applyKempub (s : TTSession) (hdr : Bytes) : TTSession :=
  match ttDhShared C s.rekey.ephSk (pubEphPk hdr) with
  | none => s
  | some _ =>
    let k := { s.rekey with
      peerKemPk := pubKemPk hdr, peerEphPk := pubEphPk hdr, peerHave := true }
    { s with rekey :=
        if k.awaitingPeer then { k with awaitingPeer := false, rekeyDue := true }
        else if k.haveKem && !k.published then { k with publishBack := true }
        else k }

def applyHdr (s : TTSession) (hdr : Bytes) (ρ : Draws) : TTSession :=
  if hdr.length = ttHdrDataRekey then applyRekey C s hdr ρ
  else if hdr.length = ttHdrDataKempub then applyKempub C s hdr
  else s

def dataReject (s : TTSession) (seq : ℕ) (key : Key) (taken : Option TTRatchet) : TTSession :=
  let s := match taken with
    | none => s
    | some r => { s with recv := skippedAdd r seq key }
  if s.active ∧ s.lossy = false then
    { s with rel := { s.rel with
        resendReqPending := true, resendReqGen := relGen C s.root, resendReqFrom := s.recv.seq } }
  else s

def feedData (s : TTSession) (ρ : Draws) (input : Bytes) (d : TTFrameDesc) (ptCap : ℕ) :
    FeedResult :=
  if s.active = false then ⟨s, .error .noSession, false⟩
  else if d.hdr.length ≠ 0 ∧ d.hdr.length ≠ ttHdrDataRekey ∧ d.hdr.length ≠ ttHdrDataKempub then
    ⟨s, .error .decodeFail, false⟩
  else match recvKey C s.recv d.seq with
  | .error e => ⟨s, .error e, false⟩
  | .ok (key, taken) =>
    match ttFrameDecode C input key ptCap with
    | none => ⟨dataReject C s d.seq key taken, .error .decodeFail, false⟩
    | some (d, pt) =>
      let s := { s with recv := taken.getD (recvCommit C s.recv d.seq) }
      ⟨applyHdr C (ackMark s) d.hdr ρ, .ok pt, false⟩

def ttSessionFeed (s : TTSession) (env : TTE2EEEnv) (ρ : Draws) (input : Bytes) (ptCap : ℕ) :
    FeedResult :=
  match ttFramePeek input with
  | none => ⟨s, .error .decodeFail, false⟩
  | some d =>
    match d.type with
    | some .init => feedInit C s env ρ input d
    | some .reply => feedReply C s env ρ input d
    | some .ack => feedControl C s .ack input d
    | some .resend => feedControl C s .resend input d
    -- an unknown type byte falls through to the DATA path, without the replay copy
    | some .data => feedData C { s with lastIn := input } ρ input d ptCap
    | none => feedData C s ρ input d ptCap

end TkTox
