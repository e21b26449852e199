import TkTox.Crypto

/-!
The wire-frame codec of `crypto/frame.c`:
`TTZ1 || ver || type || flags || seq || nonce || hdr_len || hdr || ct || tag`.
-/

namespace TkTox

@[simp] abbrev ttFrameVer : UInt8 := 1
@[simp] abbrev ttFrameMax : ℕ := 1372
@[simp] abbrev ttFrameHeadMax : ℕ := 37
@[simp] abbrev ttHdrInit : ℕ := 1254
@[simp] abbrev ttHdrReply : ℕ := 1135
@[simp] abbrev ttHdrDataKempub : ℕ := 1190
@[simp] abbrev ttHdrDataRekey : ℕ := 1071
@[simp] abbrev ttHdrDataDhOff : ℕ := ttKemCt
@[simp] abbrev ttFrameDataMax : ℕ := ttFrameMax - ttFrameHeadMax - ttMac16

@[simp] abbrev ttFrameFlagGcm : UInt8 := 1
@[simp] abbrev ttFrameFlagKem : UInt8 := 2
@[simp] abbrev ttFrameFlagAesHw : UInt8 := 4
@[simp] abbrev ttFrameFlagPk : UInt8 := 8

inductive TTFrameType
  | init
  | reply
  | data
  | ack
  | resend
deriving DecidableEq, Repr

def TTFrameType.toByte : TTFrameType → UInt8
  | .init => 0
  | .reply => 1
  | .data => 2
  | .ack => 3
  | .resend => 4

def TTFrameType.ofByte (b : UInt8) : Option TTFrameType :=
  if b = 0 then some .init
  else if b = 1 then some .reply
  else if b = 2 then some .data
  else if b = 3 then some .ack
  else if b = 4 then some .resend
  else none

@[simp] theorem TTFrameType.ofByte_toByte (t : TTFrameType) : ofByte t.toByte = some t := by
  cases t <;> rfl

structure TTFrameDesc where
  type : Option TTFrameType
  flags : UInt8
  seq : ℕ
  nonce : Bytes
  hdr : Bytes
  ptLen : ℕ
deriving DecidableEq, Repr

def frameMagic : Bytes := [84, 84, 90, 49]

def expectedHdrLen (type : Option TTFrameType) (flags : UInt8) : Option ℕ :=
  match type with
  | some .init => if flags &&& ttFrameFlagKem = 0 then none else some ttHdrInit
  | some .reply => if flags &&& ttFrameFlagKem = 0 then none else some ttHdrReply
  | some .data =>
    if flags &&& ttFrameFlagKem ≠ 0 then
      if flags &&& ttFrameFlagPk = 0 then none else some ttHdrDataRekey
    else if flags &&& ttFrameFlagPk ≠ 0 then some ttHdrDataKempub
    else some 0
  | some .ack | some .resend =>
    if flags &&& (ttFrameFlagKem ||| ttFrameFlagPk) ≠ 0 then none else some 0
  | none => none

def frameNonceLen (flags : UInt8) : ℕ :=
  if flags &&& ttFrameFlagGcm ≠ 0 then ttNonce12 else ttNonce24

def frameCipher (flags : UInt8) : TTCipher :=
  if flags &&& ttFrameFlagGcm ≠ 0 then .aesgcm else .xchacha

def frameHead (type : TTFrameType) (seq : ℕ) (flags : UInt8) (nonce hdr : Bytes) : Bytes :=
  frameMagic ++ [ttFrameVer, type.toByte, flags] ++ u32be seq ++ nonce ++ u16be hdr.length ++ hdr

def ttFrameEncode (C : Crypto) (cap : ℕ) (type : TTFrameType) (seq : ℕ) (flags : UInt8)
    (key : Key) (nonce : Nonce) (hdr pt : Bytes) : Option Bytes :=
  if flags &&& 0xF0 ≠ 0 then none
  else if expectedHdrLen (some type) flags ≠ some hdr.length then none
  else if pt.length > ttFrameMax then none
  else
    let nonceBytes := nonce.bytes.take (frameNonceLen flags)
    let total := 11 + frameNonceLen flags + 2 + hdr.length + pt.length + ttMac16
    if total > ttFrameMax ∨ total > cap then none
    else
      let head := frameHead type seq flags nonceBytes hdr
      (ttAeadSeal C (frameCipher flags) key nonceBytes head pt).map (head ++ ·)

def ttFramePeek (b : Bytes) : Option TTFrameDesc :=
  if b.length > ttFrameMax then none
  else if b.length < 11 + ttNonce12 + 2 + ttMac16 then none
  else if b.take 4 ≠ frameMagic then none
  else if b.getD 4 0 ≠ ttFrameVer then none
  else
    let flags := b.getD 6 0
    let nonceLen := frameNonceLen flags
    let hdrLen := readU16 (b.drop (11 + nonceLen))
    if flags &&& 0xF0 ≠ 0 then none
    else if b.length < 11 + nonceLen + 2 then none
    else if b.length < 11 + nonceLen + 2 + hdrLen + ttMac16 then none
    else some {
      type := TTFrameType.ofByte (b.getD 5 0)
      flags := flags
      seq := readU32 (b.drop 7)
      nonce := (b.drop 11).take nonceLen
      hdr := (b.drop (11 + nonceLen + 2)).take hdrLen
      ptLen := b.length - (11 + nonceLen + 2 + hdrLen) - ttMac16 }

def ttFrameDecode (C : Crypto) (b : Bytes) (key : Key) (ptCap : ℕ) :
    Option (TTFrameDesc × Bytes) :=
  if b.length > ttFrameMax then none
  else if b.length < 11 + ttNonce12 + 2 + ttMac16 then none
  else if b.take 4 ≠ frameMagic then none
  else if b.getD 4 0 ≠ ttFrameVer then none
  else
    let type := TTFrameType.ofByte (b.getD 5 0)
    let flags := b.getD 6 0
    let nonceLen := frameNonceLen flags
    let hdrLen := readU16 (b.drop (11 + nonceLen))
    let off := 11 + nonceLen + 2 + hdrLen
    let ptLen := b.length - off - ttMac16
    if flags &&& 0xF0 ≠ 0 then none
    else if b.length < 11 + nonceLen + 2 then none
    else if expectedHdrLen type flags ≠ some hdrLen then none
    else if b.length < off + ttMac16 then none
    else if ptLen > ptCap then none
    else
      (ttAeadOpen C (frameCipher flags) key ((b.drop 11).take nonceLen) (b.take off)
        (b.drop off)).map fun pt =>
          ({ type := type
             flags := flags
             seq := readU32 (b.drop 7)
             nonce := (b.drop 11).take nonceLen
             hdr := (b.drop (11 + nonceLen + 2)).take hdrLen
             ptLen := ptLen }, pt)

end TkTox
