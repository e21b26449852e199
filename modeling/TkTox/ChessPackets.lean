import TkTox.ChessPeers

/-!
The layout of a game packet. The writer's header constant counts six bytes, its fields take seven:
the reader finds the type and the payload again, and the id with the payload's first byte in the
place of its own last one.
-/

namespace TkTox.Chess

variable {type : UInt8} {id : ℕ} {payload : Bytes}

abbrev chessPayloadMax : ℕ := 8

-- `pkt` after the id and then the payload are written, cut to the length that is sent
def chessSendPkt (type : UInt8) (id : ℕ) (payload : Bytes) : Option Bytes :=
  if chessPayloadMax < payload.length then none
  else some (([type, ttGameVersion, ttGameTypeChess] ++ u32be id).take ttGameHeaderSize ++ payload)

structure ChessPacket where
  type : UInt8
  id : Option ℕ
  payload : Bytes
  deriving DecidableEq, Repr

-- the id is read before the length of the rest is looked at, and may end past the packet
def chessUnpackId (data : Bytes) : Option ℕ :=
  if data.length < 7 then none else some (readU32 (data.drop 3))

def chessParse (data : Bytes) : Option ChessPacket :=
  if data.length < ttGameHeaderSize then none
  else
    let type := data.getD 0 0
    if type ≠ ttGamePacketInvite ∧ type ≠ ttGamePacketData then none
    else if data.getD 1 0 ≠ ttGameVersion then none
    else if data.getD 2 0 ≠ ttGameTypeChess then none
    else some ⟨type, chessUnpackId data, data.drop ttGameHeaderSize⟩

theorem chessSendPkt_eq (h : payload.length ≤ chessPayloadMax) :
    chessSendPkt type id payload = some (chessSend type id payload) := by
  rw [chessSendPkt, if_neg (by omega)]
  rfl

theorem cbFriendLosslessPacket_eq (game : Option TTChessGame) (data : Bytes) :
    cbFriendLosslessPacket game data =
      match chessParse data with
      | none => ignored game
      | some p => chessRx game p.type p.payload := by
  unfold cbFriendLosslessPacket chessParse
  dsimp only
  split_ifs <;> rfl

theorem chessUnpackId_chessSend :
    chessUnpackId (chessSend type id payload) =
      payload.head?.map fun b => readU32 ((u32be id).take 3 ++ [b]) := by
  cases payload with
  | nil => rfl
  | cons b rest =>
    have hlen : ¬ (chessSend type id (b :: rest)).length < 7 := by
      simp [chessSend, u32be]
    rw [chessUnpackId, if_neg hlen]
    rfl

theorem chessParse_chessSend (ht : type = ttGamePacketInvite ∨ type = ttGamePacketData) :
    chessParse (chessSend type id payload) =
      some ⟨type, chessUnpackId (chessSend type id payload), payload⟩ := by
  have hlen : ¬ (chessSend type id payload).length < ttGameHeaderSize := by
    simp [chessSend, u32be, ttGameHeaderSize]
  have h0 : (chessSend type id payload).getD 0 0 = type := rfl
  have hrest : (chessSend type id payload).drop ttGameHeaderSize = payload := rfl
  rw [chessParse, if_neg hlen, h0, hrest]
  dsimp only
  rw [if_neg (by tauto)]
  rfl

theorem readU32_overwritten (hid : id < 2 ^ 32) (b : UInt8) :
    readU32 ((u32be id).take 3 ++ [b]) = id ↔ b = UInt8.ofNat id := by
  have hb := b.toNat_lt
  rw [← UInt8.toNat_inj, UInt8.toNat_ofNat']
  simp only [readU32, u32be, List.take_succ_cons, List.take_zero, List.cons_append, List.nil_append,
    List.getD_cons_zero, List.getD_cons_succ, UInt8.toNat_ofNat']
  omega

theorem chess_packet_round_trip (ht : type = ttGamePacketInvite ∨ type = ttGamePacketData)
    (hid : id < 2 ^ 32) (hlen : payload.length ≤ chessPayloadMax) :
    (chessSendPkt type id payload).bind chessParse = some ⟨type, some id, payload⟩ ↔
      payload.head? = some (UInt8.ofNat id) := by
  rw [chessSendPkt_eq hlen, Option.bind_some, chessParse_chessSend ht, chessUnpackId_chessSend]
  cases payload with
  | nil => simp
  | cons b rest => simpa using readU32_overwritten hid b

namespace Instance

theorem chess_packet_round_trip_resign :
    (chessSendPkt ttGamePacketData 0x123456FF [ttChessPktResign]).bind chessParse =
      some ⟨ttGamePacketData, some 0x123456FF, [ttChessPktResign]⟩ := by
  apply (chess_packet_round_trip (Or.inr rfl) (by decide) (by decide)).mpr
  rfl

theorem chess_invite_id_lost :
    (chessSendPkt ttGamePacketInvite 0x12345678 [ttChessPktInvite, TTColor.black.byte]).bind chessParse =
        some ⟨ttGamePacketInvite, some 0x12345601, [ttChessPktInvite, TTColor.black.byte]⟩ ∧
      (chessSendPkt ttGamePacketInvite 0x12345678 [ttChessPktInvite, TTColor.black.byte]).bind chessParse ≠
        some ⟨ttGamePacketInvite, some 0x12345678, [ttChessPktInvite, TTColor.black.byte]⟩ := by
  decide +kernel

end Instance

end TkTox.Chess
