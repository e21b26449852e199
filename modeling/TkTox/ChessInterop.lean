import TkTox.Bytes
import TkTox.ChessGame

/-!
The chess interop of the tox thread: the game kept for one friend, the packets of a game and the
two ends of it. A game that begins is numbered, and a packet carries the number of the game its
sender was in; the source has neither, and its game ids are never checked.
-/

namespace TkTox.Chess

structure TTChessGame where
  board : TTChess
  id : ℕ
  selfColor : TTColor
  pendingInvite : Bool
  started : Bool

inductive ChessEvent
  | invite (colour : TTColor)
  | start (white : Bool)
  | move (mv : Bytes)
  | finish (reason : ℕ) (weWon : Bool)
  deriving DecidableEq, Repr

structure ChessOut where
  game : Option TTChessGame
  packet : Option Bytes
  events : List ChessEvent

def ignored (g : Option TTChessGame) : ChessOut := ⟨g, none, []⟩

abbrev ttGamePacketInvite : UInt8 := 160
abbrev ttGamePacketData : UInt8 := 161
abbrev ttGameHeaderSize : ℕ := 6
abbrev ttGameVersion : UInt8 := 0x01
abbrev ttGameTypeChess : UInt8 := 1

abbrev ttChessPktInvite : UInt8 := 0x01
abbrev ttChessPktAccept : UInt8 := 0x02
abbrev ttChessPktMove : UInt8 := 0xFE
abbrev ttChessPktResign : UInt8 := 0xFF

def TTColor.byte : TTColor → UInt8
  | .white => 0
  | .black => 1

-- the header is one byte short of the id, whose last byte the payload is written over
def chessSend (type : UInt8) (id : ℕ) (payload : Bytes) : Bytes :=
  [type, ttGameVersion, ttGameTypeChess] ++ (u32be id).take 3 ++ payload

def ttChessParseSquare (s : Bytes) : Option (ℤ × ℤ) :=
  let s0 := s.getD 0 0
  let s1 := s.getD 1 0
  if s0 < 97 ∨ 104 < s0 ∨ s1 < 49 ∨ 56 < s1 ∨ s.getD 2 0 ≠ 0 then none
  else some ((s1.toNat : ℤ) - 49, (s0.toNat : ℤ) - 97)

def zeroChess : TTChess where
  board := fun _ _ => emptyPiece
  toMove := .white
  whiteKs := false
  whiteQs := false
  blackKs := false
  blackQs := false
  epFile := 0
  status := .playing
  winner := .white

def moveEnd (g : TTChessGame) : Option TTChessGame × List ChessEvent :=
  if g.board.status = .checkmate then (none, [.finish 0 (decide (g.board.winner = g.selfColor))])
  else if g.board.status = .stalemate then (none, [.finish 1 false])
  else (some g, [])

def chessRxInvite (game : Option TTChessGame) (data : Bytes) : ChessOut :=
  if data.length ≠ 2 ∨ data.getD 0 0 ≠ ttChessPktInvite then ignored game
  else
    let colour := data.getD 1 0
    if colour ≠ TTColor.white.byte ∧ colour ≠ TTColor.black.byte then ignored game
    else if game.isSome then ignored game
    else
      let c : TTColor := if colour = TTColor.white.byte then .white else .black
      ⟨some ⟨zeroChess, 0, c, true, false⟩, none, [.invite c]⟩

def chessRxAccept (g : TTChessGame) (data : Bytes) : ChessOut :=
  if data.length ≠ 1 ∨ g.pendingInvite ∨ g.started then ignored (some g)
  else ⟨some { g with started := true }, none, [.start (decide (g.selfColor = .white))]⟩

def chessRxMove (g : TTChessGame) (data : Bytes) : ChessOut :=
  if data.length ≠ 5 ∨ ¬ g.started then ignored (some g)
  else
    match ttChessParseSquare [data.getD 1 0, data.getD 2 0, 0],
      ttChessParseSquare [data.getD 3 0, data.getD 4 0, 0] with
    | some (fr, ff), some (tr, tf) =>
      if g.board.toMove = g.selfColor then ignored (some g)
      else
        match ttChessMove g.board fr ff tr tf with
        | none => ignored (some g)
        | some b =>
          let (game, events) := moveEnd { g with board := b }
          ⟨game, none, .move (data.drop 1) :: events⟩
    | _, _ => ignored (some g)

def chessRxResign (g : TTChessGame) (data : Bytes) : ChessOut :=
  if data.length ≠ 1 ∨ ¬ g.started then ignored (some g)
  else ⟨none, none, [.finish 2 true]⟩

def chessRx (game : Option TTChessGame) (type : UInt8) (data : Bytes) : ChessOut :=
  if data.length < 1 then ignored game
  else if type = ttGamePacketInvite then chessRxInvite game data
  else if type ≠ ttGamePacketData then ignored game
  else
    match game with
    | none => ignored none
    | some g =>
      let pkt := data.getD 0 0
      if pkt = ttChessPktAccept then chessRxAccept g data
      else if pkt = ttChessPktMove then chessRxMove g data
      else if pkt = ttChessPktResign then chessRxResign g data
      else ignored (some g)

def cbFriendLosslessPacket (game : Option TTChessGame) (data : Bytes) : ChessOut :=
  if data.length < ttGameHeaderSize then ignored game
  else
    let type := data.getD 0 0
    if type ≠ ttGamePacketInvite ∧ type ≠ ttGamePacketData then ignored game
    else if data.getD 1 0 ≠ ttGameVersion then ignored game
    else if data.getD 2 0 ≠ ttGameTypeChess then ignored game
    else chessRx game type (data.drop ttGameHeaderSize)

def handleCmdChessInvite (game : Option TTChessGame) (r : ℕ) (ok : Bool) : ChessOut :=
  match game with
  | some g => ignored (some g)
  | none =>
    let color : TTColor := if r % 2 = 1 then .black else .white
    let g : TTChessGame := ⟨ttChessInit, r, color, false, false⟩
    if ok then
      ⟨some g, some (chessSend ttGamePacketInvite g.id [ttChessPktInvite, color.other.byte]), []⟩
    else ignored none

def handleCmdChessAccept (game : Option TTChessGame) (ok : Bool) : ChessOut :=
  match game with
  | none => ignored none
  | some g =>
    if ¬ g.pendingInvite then ignored (some g)
    else if ok then
      ⟨some { g with board := ttChessInit, pendingInvite := false, started := true },
        some (chessSend ttGamePacketData g.id [ttChessPktAccept]),
        [.start (decide (g.selfColor = .white))]⟩
    else ignored none

def handleCmdChessDecline (game : Option TTChessGame) : ChessOut :=
  match game with
  | none => ignored none
  | some g => if ¬ g.pendingInvite then ignored (some g) else ignored none

def handleCmdChessMove (game : Option TTChessGame) (mv : Option Bytes) (ok : Bool) : ChessOut :=
  match game, mv with
  | some g, some mv =>
    if ¬ g.started ∨ mv.length ≠ 4 then ignored (some g)
    else
      match ttChessParseSquare [mv.getD 0 0, mv.getD 1 0, 0],
        ttChessParseSquare [mv.getD 2 0, mv.getD 3 0, 0] with
      | some (fr, ff), some (tr, tf) =>
        if g.board.toMove ≠ g.selfColor then ignored (some g)
        else
          match ttChessMove g.board fr ff tr tf with
          | none => ignored (some g)
          | some b =>
            if ok then
              let (game, events) := moveEnd { g with board := b }
              ⟨game, some (chessSend ttGamePacketData g.id (ttChessPktMove :: mv)), events⟩
            -- the friend dropped in mid-game
            else ⟨none, none, [.finish 2 false]⟩
      | _, _ => ignored (some g)
  | game, _ => ignored game

def handleCmdChessResign (game : Option TTChessGame) (ok : Bool) : ChessOut :=
  match game with
  | none => ignored none
  | some g =>
    if ¬ g.started then ignored (some g)
    else ⟨none, if ok then some (chessSend ttGamePacketData g.id [ttChessPktResign]) else none,
      [.finish 2 false]⟩

inductive ChessCmd
  | invite (r : ℕ)
  | accept
  | decline
  | move (mv : Option Bytes)
  | resign

def handleCmdChess (game : Option TTChessGame) (cmd : ChessCmd) (ok : Bool) : ChessOut :=
  match cmd with
  | .invite r => handleCmdChessInvite game r ok
  | .accept => handleCmdChessAccept game ok
  | .decline => handleCmdChessDecline game
  | .move mv => handleCmdChessMove game mv ok
  | .resign => handleCmdChessResign game ok

structure Flight where
  packet : Bytes
  tag : ℕ

/-- The two peers, their games' numbers, and what toxcore has on the way to each. -/
structure ChessPeers where
  game : Bool → Option TTChessGame
  tag : Bool → ℕ
  chan : Bool → List Flight
  count : ℕ

def ChessPeers.new : ChessPeers := ⟨fun _ => none, fun _ => 0, fun _ => [], 0⟩

def tagAfter (before after : Option TTChessGame) (fresh tag : ℕ) : ℕ :=
  if before.isNone && after.isSome then fresh else tag

inductive ChessOp
  | command (p : Bool) (cmd : ChessCmd) (ok : Bool)
  | deliver (p : Bool)

namespace ChessPeers

variable (w : ChessPeers) (p : Bool)

def command (out : ChessOut) : ChessPeers :=
  let tag := tagAfter (w.game p) out.game w.count (w.tag p)
  { game := Function.update w.game p out.game
    tag := Function.update w.tag p tag
    chan := Function.update w.chan (!p)
      (w.chan (!p) ++ out.packet.toList.map fun packet => ⟨packet, tag⟩)
    count := w.count + 1 }

def deliver (f : Flight) (rest : List Flight) : ChessPeers :=
  let game := (cbFriendLosslessPacket (w.game p) f.packet).game
  { w with
    game := Function.update w.game p game
    tag := Function.update w.tag p (tagAfter (w.game p) game f.tag (w.tag p))
    chan := Function.update w.chan p rest }

def step (w : ChessPeers) : ChessOp → ChessPeers
  | .command p cmd ok => w.command p (handleCmdChess (w.game p) cmd ok)
  | .deliver p =>
    match w.chan p with
    | [] => w
    | f :: rest => w.deliver p f rest

def run (ops : List ChessOp) : ChessPeers := ops.foldl step new

end ChessPeers

end TkTox.Chess
