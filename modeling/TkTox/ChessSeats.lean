import TkTox.ChessInterop
import TkTox.TurnGame

/-!
The handlers of the chess interop as players of the turn game: what a packet is to its receiver,
and what a command is an act of.
-/

namespace TkTox.Chess

open TurnGame

def TTColor.isWhite : TTColor → Bool
  | .white => true
  | .black => false

@[simp] theorem TTColor.isWhite_other (c : TTColor) : c.other.isWhite = !c.isWhite := by
  cases c <;> rfl

theorem TTColor.isWhite_inj {c d : TTColor} : c.isWhite = d.isWhite ↔ c = d := by
  cases c <;> cases d <;> decide

theorem ttChessMove_toMove {g g' : TTChess} {fr ff tr tf : ℤ}
    (h : ttChessMove g fr ff tr tf = some g') : g'.toMove = g.toMove.other := by
  unfold ttChessMove at h
  split at h
  · cases h
  · dsimp only at h
    split_ifs at h
    cases h
    obtain ⟨st, w, hs⟩ := statusUpdated_eq (moveMade g (g.board fr ff) (g.board tr tf) fr ff tr tf)
      (g.board fr ff).color
    rw [hs]
    rfl

abbrev MoveText := UInt8 × UInt8 × UInt8 × UInt8

def chessPlay (b : TTChess) (m : MoveText) : Option TTChess :=
  match ttChessParseSquare [m.1, m.2.1, 0], ttChessParseSquare [m.2.2.1, m.2.2.2, 0] with
  | some (fr, ff), some (tr, tf) => ttChessMove b fr ff tr tf
  | _, _ => none

def chessRules : Rules TTChess MoveText where
  start := ttChessInit
  turn := fun b => b.toMove.isWhite
  play := chessPlay
  ended := fun b => decide (b.status = .checkmate) || decide (b.status = .stalemate)
  turn_play := by
    intro b m b' h
    unfold chessPlay at h
    split at h
    · rw [ttChessMove_toMove h, TTColor.isWhite_other]
    · cases h

def seat : Option TTChessGame → Seat TTChess
  | none => .empty
  | some g =>
    if g.pendingInvite then .asked g.selfColor.isWhite
    else if g.started then .live g.selfColor.isWhite g.board
    else .out g.selfColor.isWhite

def Tidy (game : Option TTChessGame) : Prop :=
  ∀ g ∈ game, (g.pendingInvite → ¬ g.started) ∧
    (¬ g.pendingInvite → ¬ g.started → g.board = ttChessInit)

def colourByte (white : Bool) : UInt8 := if white then TTColor.white.byte else TTColor.black.byte

def wire : Msg MoveText → ℕ → Bytes
  | .invite c, id => chessSend ttGamePacketInvite id [ttChessPktInvite, colourByte c]
  | .accept, id => chessSend ttGamePacketData id [ttChessPktAccept]
  | .move (f, r, f', r'), id => chessSend ttGamePacketData id [ttChessPktMove, f, r, f', r']
  | .resign, id => chessSend ttGamePacketData id [ttChessPktResign]

theorem chessSend_read (game : Option TTChessGame) {type : UInt8} (id : ℕ) (payload : Bytes)
    (ht : type = ttGamePacketInvite ∨ type = ttGamePacketData) :
    cbFriendLosslessPacket game (chessSend type id payload) = chessRx game type payload := by
  have hlen : ¬ (chessSend type id payload).length < ttGameHeaderSize := by
    simp [chessSend, u32be, ttGameHeaderSize]
  unfold cbFriendLosslessPacket
  rw [if_neg hlen]
  simp only [chessSend, u32be, List.cons_append, List.nil_append, List.take_succ_cons,
    List.take_zero, List.getD_cons_zero, List.getD_cons_succ, List.drop_succ_cons, List.drop_zero,
    ttGameHeaderSize]
  rw [if_neg (by tauto)]
  simp

theorem moveEnd_seat {g : TTChessGame} (hs : g.started = true) (hp : g.pendingInvite = false) :
    seat (moveEnd g).1 = settle chessRules g.selfColor.isWhite g.board := by
  unfold moveEnd settle chessRules
  split_ifs <;> simp_all [seat]

theorem moveEnd_tidy {g : TTChessGame} (hs : g.started = true) (hp : g.pendingInvite = false) :
    Tidy (moveEnd g).1 := by
  unfold moveEnd
  split_ifs <;> simp [Tidy, hs, hp]

structure Reads (game : Option TTChessGame) (m : Msg MoveText) (out : ChessOut) : Prop where
  seat : seat out.game = TurnGame.receive chessRules (seat game) m
  tidy : Tidy out.game
  heed : out = ignored game ∨ TurnGame.receive chessRules (Chess.seat game) m ≠ Chess.seat game

theorem reads_ignored {game : Option TTChessGame} {m : Msg MoveText} (ht : Tidy game)
    (h : TurnGame.receive chessRules (seat game) m = seat game) : Reads game m (ignored game) :=
  ⟨h.symm, ht, .inl rfl⟩

theorem colourByte_cases (c : Bool) : colourByte c = 0 ∧ c = true ∨ colourByte c = 1 ∧ c = false := by
  cases c
  · exact .inr ⟨rfl, rfl⟩
  · exact .inl ⟨rfl, rfl⟩

theorem chessRx_invite {game : Option TTChessGame} (ht : Tidy game) (c : Bool) :
    Reads game (.invite c) (chessRx game ttGamePacketInvite [ttChessPktInvite, colourByte c]) := by
  cases game with
  | none => obtain ⟨hb, rfl⟩ | ⟨hb, rfl⟩ := colourByte_cases c <;> rw [hb] <;> constructor <;>
      simp [chessRx, chessRxInvite, seat, TurnGame.receive, TTColor.byte, TTColor.isWhite, Tidy]
  | some g =>
    have hrx : chessRx (some g) ttGamePacketInvite [ttChessPktInvite, colourByte c] =
        ignored (some g) := by
      simp [chessRx, chessRxInvite]
    rw [hrx]
    refine reads_ignored ht (receive_invite ?_)
    simp only [seat]
    split_ifs <;> simp

theorem seat_some_cases {g : TTChessGame} (ht : Tidy (some g)) :
    (g.pendingInvite = true ∧ g.started = false ∧ seat (some g) = .asked g.selfColor.isWhite) ∨
      (g.pendingInvite = false ∧ g.started = true ∧
        seat (some g) = .live g.selfColor.isWhite g.board) ∨
      (g.pendingInvite = false ∧ g.started = false ∧ g.board = ttChessInit ∧
        seat (some g) = .out g.selfColor.isWhite) := by
  obtain ⟨hp, hb⟩ := ht g rfl
  cases h : g.pendingInvite <;> cases h' : g.started <;> simp_all [seat]

theorem chessRx_accept {game : Option TTChessGame} (ht : Tidy game) :
    Reads game .accept (chessRx game ttGamePacketData [ttChessPktAccept]) := by
  cases game with
  | none => exact reads_ignored ht rfl
  | some g =>
    have hrx : chessRx (some g) ttGamePacketData [ttChessPktAccept] =
        chessRxAccept g [ttChessPktAccept] := rfl
    rw [hrx]
    obtain ⟨hp, hs, he⟩ | ⟨hp, hs, he⟩ | ⟨hp, hs, hb, he⟩ := seat_some_cases ht
    · rw [show chessRxAccept g [ttChessPktAccept] = ignored (some g) by simp [chessRxAccept, hp]]
      exact reads_ignored ht (by rw [he]; rfl)
    · rw [show chessRxAccept g [ttChessPktAccept] = ignored (some g) by simp [chessRxAccept, hs]]
      exact reads_ignored ht (by rw [he]; rfl)
    · constructor
      · rw [he]
        simp [chessRxAccept, hp, hs, seat, TurnGame.receive, chessRules, hb]
      · simp [chessRxAccept, hp, hs, Tidy]
      · right
        simp [he, TurnGame.receive]

theorem chessRx_resign {game : Option TTChessGame} (ht : Tidy game) :
    Reads game .resign (chessRx game ttGamePacketData [ttChessPktResign]) := by
  cases game with
  | none => exact reads_ignored ht rfl
  | some g =>
    have hrx : chessRx (some g) ttGamePacketData [ttChessPktResign] =
        chessRxResign g [ttChessPktResign] := rfl
    rw [hrx]
    obtain ⟨hp, hs, he⟩ | ⟨hp, hs, he⟩ | ⟨hp, hs, hb, he⟩ := seat_some_cases ht
    · rw [show chessRxResign g [ttChessPktResign] = ignored (some g) by simp [chessRxResign, hs]]
      exact reads_ignored ht (by rw [he]; rfl)
    · constructor
      · rw [he]
        simp [chessRxResign, hs, seat, TurnGame.receive]
      · simp [chessRxResign, hs, Tidy]
      · right
        simp [he, TurnGame.receive]
    · rw [show chessRxResign g [ttChessPktResign] = ignored (some g) by simp [chessRxResign, hs]]
      exact reads_ignored ht (by rw [he]; rfl)

theorem chessRxMove_eq (g : TTChessGame) (hs : g.started = true) (f r f' r' : UInt8) :
    chessRxMove g [ttChessPktMove, f, r, f', r'] =
      if g.board.toMove = g.selfColor then ignored (some g)
      else match chessPlay g.board (f, r, f', r') with
        | none => ignored (some g)
        | some b => ⟨(moveEnd { g with board := b }).1, none,
            .move [f, r, f', r'] :: (moveEnd { g with board := b }).2⟩ := by
  unfold chessRxMove chessPlay
  simp only [List.length_cons, List.length_nil, hs, not_true_eq_false, or_false,
    List.getD_cons_succ, List.getD_cons_zero]
  rw [if_neg (by decide)]
  cases ttChessParseSquare [f, r, 0] with
  | none => simp
  | some s =>
    cases ttChessParseSquare [f', r', 0] with
    | none => simp
    | some s' => rfl

theorem chessRx_move {game : Option TTChessGame} (ht : Tidy game) (m : MoveText) :
    Reads game (.move m)
      (chessRx game ttGamePacketData [ttChessPktMove, m.1, m.2.1, m.2.2.1, m.2.2.2]) := by
  obtain ⟨f, r, f', r'⟩ := m
  cases game with
  | none => exact reads_ignored ht rfl
  | some g =>
    have hrx : chessRx (some g) ttGamePacketData [ttChessPktMove, f, r, f', r'] =
        chessRxMove g [ttChessPktMove, f, r, f', r'] := rfl
    rw [hrx]
    have hidle : g.started = false → chessRxMove g [ttChessPktMove, f, r, f', r'] = ignored (some g) := by
      intro hs
      simp [chessRxMove, hs]
    obtain ⟨hp, hs, he⟩ | ⟨hp, hs, he⟩ | ⟨hp, hs, hb, he⟩ := seat_some_cases ht
    · rw [hidle hs]
      exact reads_ignored ht (by rw [he]; rfl)
    · rw [chessRxMove_eq g hs]
      by_cases hturn : g.board.toMove = g.selfColor
      · rw [if_pos hturn]
        refine reads_ignored ht ?_
        rw [he]
        simp [TurnGame.receive, chessRules, hturn]
      rw [if_neg hturn]
      have hturn' : chessRules.turn g.board ≠ g.selfColor.isWhite :=
        fun h => hturn (TTColor.isWhite_inj.mp h)
      cases hplay : chessPlay g.board (f, r, f', r') with
      | none =>
        refine reads_ignored ht ?_
        rw [he]
        simp [TurnGame.receive, chessRules, hplay]
      | some b =>
        have hrecv : TurnGame.receive chessRules (seat (some g)) (.move (f, r, f', r')) =
            settle chessRules g.selfColor.isWhite b := by
          rw [he]
          exact receive_move (Bool.eq_not.mpr hturn') hplay
        constructor
        · rw [hrecv]
          exact moveEnd_seat hs hp
        · exact moveEnd_tidy hs hp
        · right
          rw [hrecv, he]
          obtain h | h := settle_cases (R := chessRules) g.selfColor.isWhite b <;> rw [h]
          · simp
          · -- the turn has passed, so it is another board
            have := chessRules.turn_play hplay
            intro hc
            cases hc
            simp at this
    · rw [hidle hs]
      exact reads_ignored ht (by rw [he]; rfl)

theorem cb_wire {game : Option TTChessGame} (ht : Tidy game) (m : Msg MoveText) (id : ℕ) :
    Reads game m (cbFriendLosslessPacket game (wire m id)) := by
  cases m with
  | invite c =>
    rw [wire, chessSend_read _ _ _ (.inl rfl)]
    exact chessRx_invite ht c
  | accept =>
    rw [wire, chessSend_read _ _ _ (.inr rfl)]
    exact chessRx_accept ht
  | move m =>
    rw [wire, chessSend_read _ _ _ (.inr rfl)]
    exact chessRx_move ht m
  | resign =>
    rw [wire, chessSend_read _ _ _ (.inr rfl)]
    exact chessRx_resign ht

theorem seat_eq_empty {game : Option TTChessGame} : seat game = .empty ↔ game = none := by
  cases game with
  | none => simp [seat]
  | some g =>
    simp only [seat, reduceCtorEq, iff_false]
    split_ifs <;> simp

theorem Reads.joined {game : Option TTChessGame} {m : Msg MoveText} {out : ChessOut}
    (h : Reads game m out) (tag₀ tag : ℕ) :
    tagAfter game out.game tag₀ tag = joined (Chess.seat game) m tag₀ tag := by
  have hs := h.seat
  unfold tagAfter
  cases game with
  | some g => rw [joined_of_ne (by simp [seat_eq_empty])]; simp
  | none =>
    cases m with
    | invite c =>
      have : out.game ≠ none := by
        intro hn
        rw [hn] at hs
        cases hs
      simp [Option.isSome_iff_ne_none.mpr this, TurnGame.joined, Chess.seat]
    | accept => simp [seat_eq_empty.mp hs, TurnGame.joined, Chess.seat]
    | move m => simp [seat_eq_empty.mp hs, TurnGame.joined, Chess.seat]
    | resign => simp [seat_eq_empty.mp hs, TurnGame.joined, Chess.seat]

structure Does (game : Option TTChessGame) (out : ChessOut) (m : Option (Msg MoveText)) : Prop where
  act : Act chessRules (seat game) (seat out.game) m
  packet : ∃ id, out.packet = m.map fun m => wire m id
  tidy : Tidy out.game
  begins : game = none → out.game ≠ none → ∃ c, m = some (.invite c)

theorem does_ignored {game : Option TTChessGame} (ht : Tidy game) : Does game (ignored game) none :=
  ⟨.stay _, ⟨0, rfl⟩, ht, fun h h' => absurd h h'⟩

theorem invite_does {game : Option TTChessGame} (ht : Tidy game) (r : ℕ) (ok : Bool) :
    ∃ m, Does game (handleCmdChessInvite game r ok) m := by
  cases game with
  | some g => exact ⟨none, does_ignored ht⟩
  | none =>
    cases ok with
    | false => exact ⟨none, does_ignored ht⟩
    | true =>
      let color : TTColor := if r % 2 = 1 then .black else .white
      refine ⟨some (.invite !color.isWhite), .invite color.isWhite, ⟨r, ?_⟩, ?_, fun _ _ => ⟨_, rfl⟩⟩
      · cases hc : color <;> simp [handleCmdChessInvite, color, hc, wire] <;> rfl
      · simp [handleCmdChessInvite, Tidy]

theorem accept_does {game : Option TTChessGame} (ht : Tidy game) (ok : Bool) :
    ∃ m, Does game (handleCmdChessAccept game ok) m := by
  cases game with
  | none => exact ⟨none, does_ignored ht⟩
  | some g =>
    by_cases hp : g.pendingInvite
    · have hseat : seat (some g) = .asked g.selfColor.isWhite := by simp [seat, hp]
      cases ok with
      | false =>
        have hout : handleCmdChessAccept (some g) false = ignored none := by
          simp [handleCmdChessAccept, hp]
        refine ⟨none, ?_, ⟨0, ?_⟩, ?_, by simp⟩
        · rw [hseat, hout]
          exact .drop _
        · rw [hout]
          rfl
        · rw [hout]
          simp [ignored, Tidy]
      | true =>
        have hout : handleCmdChessAccept (some g) true =
            ⟨some { g with board := ttChessInit, pendingInvite := false, started := true },
              some (wire .accept g.id), [.start (decide (g.selfColor = .white))]⟩ := by
          simp [handleCmdChessAccept, hp, wire]
        refine ⟨some .accept, ?_, ⟨g.id, ?_⟩, ?_, by simp⟩
        · rw [hseat, hout]
          exact .accept _
        · rw [hout]
          rfl
        · rw [hout]
          simp [Tidy]
    · refine ⟨none, ?_⟩
      rw [show handleCmdChessAccept (some g) ok = ignored (some g) by simp [handleCmdChessAccept, hp]]
      exact does_ignored ht

theorem decline_does {game : Option TTChessGame} (ht : Tidy game) :
    ∃ m, Does game (handleCmdChessDecline game) m := by
  cases game with
  | none => exact ⟨none, does_ignored ht⟩
  | some g =>
    refine ⟨none, ?_⟩
    by_cases hp : g.pendingInvite
    · have hout : handleCmdChessDecline (some g) = ignored none := by simp [handleCmdChessDecline, hp]
      rw [hout]
      refine ⟨?_, ⟨0, rfl⟩, by simp [ignored, Tidy], by simp⟩
      rw [show seat (some g) = .asked g.selfColor.isWhite by simp [seat, hp]]
      exact .drop _
    · rw [show handleCmdChessDecline (some g) = ignored (some g) by simp [handleCmdChessDecline, hp]]
      exact does_ignored ht

theorem resign_does {game : Option TTChessGame} (ht : Tidy game) (ok : Bool) :
    ∃ m, Does game (handleCmdChessResign game ok) m := by
  cases game with
  | none => exact ⟨none, does_ignored ht⟩
  | some g =>
    by_cases hs : g.started
    · have hseat : seat (some g) = .live g.selfColor.isWhite g.board := by
        have hp := (ht g rfl).1
        cases h : g.pendingInvite <;> simp_all [seat]
      cases ok with
      | false =>
        refine ⟨none, ?_, ⟨0, ?_⟩, ?_, by simp⟩ <;> simp only [handleCmdChessResign, hs, hseat]
        · exact .leave _ _
        · rfl
        · simp [Tidy]
      | true =>
        refine ⟨some .resign, ?_, ⟨g.id, ?_⟩, ?_, by simp⟩ <;>
          simp only [handleCmdChessResign, hs, hseat]
        · exact .resign _ _
        · rfl
        · simp [Tidy]
    · refine ⟨none, ?_⟩
      rw [show handleCmdChessResign (some g) ok = ignored (some g) by simp [handleCmdChessResign, hs]]
      exact does_ignored ht

theorem handleCmdChessMove_eq (g : TTChessGame) (hs : g.started = true) (f r f' r' : UInt8)
    (ok : Bool) : handleCmdChessMove (some g) (some [f, r, f', r']) ok =
      if g.board.toMove ≠ g.selfColor then ignored (some g)
      else match chessPlay g.board (f, r, f', r') with
        | none => ignored (some g)
        | some b =>
          if ok then ⟨(moveEnd { g with board := b }).1, some (wire (.move (f, r, f', r')) g.id),
            (moveEnd { g with board := b }).2⟩
          else ⟨none, none, [.finish 2 false]⟩ := by
  unfold handleCmdChessMove chessPlay
  simp only [List.length_cons, List.length_nil, hs, not_true_eq_false, false_or,
    List.getD_cons_succ, List.getD_cons_zero]
  rw [if_neg (by decide)]
  cases ttChessParseSquare [f, r, 0] with
  | none => simp
  | some s =>
    cases ttChessParseSquare [f', r', 0] with
    | none => simp
    | some s' => rfl

theorem move_does {game : Option TTChessGame} (ht : Tidy game) (mv : Option Bytes) (ok : Bool) :
    ∃ m, Does game (handleCmdChessMove game mv ok) m := by
  match game, mv with
  | none, mv => exact ⟨none, does_ignored ht⟩
  | some g, none => exact ⟨none, does_ignored ht⟩
  | some g, some mv =>
    by_cases hg : ¬ g.started ∨ mv.length ≠ 4
    · refine ⟨none, ?_⟩
      rw [show handleCmdChessMove (some g) (some mv) ok = ignored (some g) by
        simp only [handleCmdChessMove, if_pos hg]]
      exact does_ignored ht
    push Not at hg
    obtain ⟨hs, hlen⟩ := hg
    obtain ⟨f, r, f', r', rfl⟩ := List.length_eq_four.mp hlen
    have hp : g.pendingInvite = false := by
      have := (ht g rfl).1
      cases h : g.pendingInvite <;> simp_all
    have hseat : seat (some g) = .live g.selfColor.isWhite g.board := by simp [seat, hp, hs]
    rw [handleCmdChessMove_eq g hs]
    by_cases hturn : g.board.toMove ≠ g.selfColor
    · rw [if_pos hturn]
      exact ⟨none, does_ignored ht⟩
    rw [if_neg hturn]
    push Not at hturn
    cases hplay : chessPlay g.board (f, r, f', r') with
    | none => exact ⟨none, does_ignored ht⟩
    | some b =>
      cases ok with
      | false =>
        refine ⟨none, ?_, ⟨0, rfl⟩, by simp [Tidy], by simp⟩
        rw [hseat]
        exact .leave _ _
      | true =>
        refine ⟨some (.move (f, r, f', r')), ?_, ⟨g.id, rfl⟩, moveEnd_tidy hs hp, by simp⟩
        have hend : seat (moveEnd { g with board := b }).1 =
            settle chessRules g.selfColor.isWhite b := moveEnd_seat hs hp
        rw [hseat]
        simp only [if_true]
        rw [hend]
        exact .move (by simp [chessRules, hturn]) hplay

theorem handleCmdChess_does {game : Option TTChessGame} (ht : Tidy game) (cmd : ChessCmd) (ok : Bool) :
    ∃ m, Does game (handleCmdChess game cmd ok) m := by
  cases cmd with
  | invite r => exact invite_does ht r ok
  | accept => exact accept_does ht ok
  | decline => exact decline_does ht
  | move mv => exact move_does ht mv ok
  | resign => exact resign_does ht ok

end TkTox.Chess
