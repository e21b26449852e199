import Mathlib.Algebra.Order.Ring.Int
import Mathlib.Tactic.Ring

/-!
The chess engine: board, attacks and moves. A board is indexed `[rank][file]` as in the source,
rank 0 being White's back rank; every read of the source is guarded by `in_bounds`, so squares
outside the grid are never looked at.
-/

namespace TkTox.Chess

abbrev ttChessFiles : ℕ := 8
abbrev ttChessRanks : ℕ := 8

inductive TTPieceType
  | none | pawn | rook | knight | bishop | queen | king
  deriving DecidableEq, Repr

inductive TTColor
  | white | black
  deriving DecidableEq, Repr

def TTColor.other : TTColor → TTColor
  | .white => .black
  | .black => .white

structure TTPiece where
  type : TTPieceType
  color : TTColor
  deriving DecidableEq, Repr

inductive TTChessStatus
  | playing | checkmate | stalemate | resigned
  deriving DecidableEq, Repr

abbrev Board := ℤ → ℤ → TTPiece

structure TTChess where
  board : Board
  toMove : TTColor
  whiteKs : Bool
  whiteQs : Bool
  blackKs : Bool
  blackQs : Bool
  epFile : ℤ
  status : TTChessStatus
  winner : TTColor

def Board.set (b : Board) (rank file : ℤ) (p : TTPiece) : Board :=
  fun r f => if r = rank ∧ f = file then p else b r f

def emptyPiece : TTPiece := ⟨.none, .white⟩

def Board.clear (b : Board) (rank file : ℤ) : Board := b.set rank file emptyPiece

def back (file : ℕ) : TTPieceType :=
  match file with
  | 0 | 7 => .rook
  | 1 | 6 => .knight
  | 2 | 5 => .bishop
  | 3 => .queen
  | _ => .king

def initFile (b : Board) (f : ℕ) : Board :=
  (((b.set 0 f ⟨back f, .white⟩).set 1 f ⟨.pawn, .white⟩).set 6 f ⟨.pawn, .black⟩).set 7 f
    ⟨back f, .black⟩

def ttChessInit : TTChess where
  board := (List.range ttChessFiles).foldl initFile fun _ _ => emptyPiece
  toMove := .white
  whiteKs := true
  whiteQs := true
  blackKs := true
  blackQs := true
  epFile := -1
  status := .playing
  winner := .white

def inBounds (rank file : ℤ) : Bool :=
  decide (0 ≤ rank) && decide (rank < ttChessRanks) && decide (0 ≤ file) &&
    decide (file < ttChessFiles)

def kd : List (ℤ × ℤ) :=
  [(-2, -1), (-2, 1), (2, -1), (2, 1), (-1, -2), (-1, 2), (1, -2), (1, 2)]

def ring : List (ℤ × ℤ) :=
  [(-1, -1), (-1, 0), (-1, 1), (0, -1), (0, 1), (1, -1), (1, 0), (1, 1)]

def dirs : List (ℤ × ℤ) := [(1, 0), (-1, 0), (0, 1), (0, -1)]

def ddirs : List (ℤ × ℤ) := [(1, 1), (1, -1), (-1, 1), (-1, -1)]

def pieceAt (b : Board) (rank file : ℤ) (type : TTPieceType) (color : TTColor) : Bool :=
  inBounds rank file && (b rank file).type == type && (b rank file).color == color

def slideAttacked (b : Board) (attacker : TTColor) (type : TTPieceType) (d : ℤ × ℤ) :
    ℕ → ℤ → ℤ → Bool
  | 0, _, _ => false
  | n + 1, r, f =>
    if inBounds r f then
      if (b r f).type ≠ .none then
        (b r f).color == attacker && ((b r f).type == type || (b r f).type == .queen)
      else slideAttacked b attacker type d n (r + d.1) (f + d.2)
    else false

def pawnRank (attacker : TTColor) (rank : ℤ) : ℤ :=
  if attacker = .white then rank - 1 else rank + 1

def ttChessSquareAttacked (b : Board) (rank file : ℤ) (attacker : TTColor) : Bool :=
  pieceAt b (pawnRank attacker rank) (file - 1) .pawn attacker ||
  pieceAt b (pawnRank attacker rank) (file + 1) .pawn attacker ||
  kd.any (fun d => pieceAt b (rank + d.1) (file + d.2) .knight attacker) ||
  ring.any (fun d => pieceAt b (rank + d.1) (file + d.2) .king attacker) ||
  dirs.any (fun d => slideAttacked b attacker .rook d ttChessRanks (rank + d.1) (file + d.2)) ||
  ddirs.any (fun d => slideAttacked b attacker .bishop d ttChessRanks (rank + d.1) (file + d.2))

def squares : List (ℤ × ℤ) :=
  (List.range ttChessRanks).flatMap fun r =>
    (List.range ttChessFiles).map fun f => (Int.ofNat r, Int.ofNat f)

def ttChessInCheck (b : Board) (color : TTColor) : Bool :=
  match squares.find? fun q => (b q.1 q.2).type == .king && (b q.1 q.2).color == color with
  | some q => ttChessSquareAttacked b q.1 q.2 color.other
  | none => false

def movedBoard (b : Board) (fr ff tr tf : ℤ) : Board := (b.set tr tf (b fr ff)).clear fr ff

def moveLeavesSelfInCheck (b : Board) (fr ff tr tf : ℤ) : Bool :=
  ttChessInCheck (movedBoard b fr ff tr tf) (movedBoard b fr ff tr tf tr tf).color

def pawnDir (color : TTColor) : ℤ := if color = .white then 1 else -1

def pawnStart (color : TTColor) : ℤ := if color = .white then 1 else 6

def epRank (color : TTColor) : ℤ := if color = .white then 5 else 2

def pawnHasMove (g : TTChess) (color : TTColor) (fr ff : ℤ) : Bool :=
  let tr := fr + pawnDir color
  (inBounds tr ff && (g.board tr ff).type == .none &&
    (!moveLeavesSelfInCheck g.board fr ff tr ff ||
      (fr == pawnStart color && (g.board (fr + 2 * pawnDir color) ff).type == .none &&
        !moveLeavesSelfInCheck g.board fr ff (fr + 2 * pawnDir color) ff))) ||
  [(-1 : ℤ), 1].any fun df =>
    let tf := ff + df
    let t := g.board tr tf
    inBounds tr tf &&
      (if t.type ≠ .none ∧ t.color ≠ color then !moveLeavesSelfInCheck g.board fr ff tr tf
       else if t.type = .none ∧ tf = g.epFile ∧ tr = epRank color then
         !moveLeavesSelfInCheck g.board fr ff tr tf
       else false)

def leaperHasMove (g : TTChess) (color : TTColor) (fr ff : ℤ) (offsets : List (ℤ × ℤ)) : Bool :=
  offsets.any fun d =>
    let t := g.board (fr + d.1) (ff + d.2)
    inBounds (fr + d.1) (ff + d.2) && !(t.type != .none && t.color == color) &&
      !moveLeavesSelfInCheck g.board fr ff (fr + d.1) (ff + d.2)

def sliderHasMove (g : TTChess) (color : TTColor) (fr ff : ℤ) (d : ℤ × ℤ) : ℕ → ℤ → ℤ → Bool
  | 0, _, _ => false
  | n + 1, tr, tf =>
    if inBounds tr tf then
      let t := g.board tr tf
      if t.type ≠ .none ∧ t.color = color then false
      else if !moveLeavesSelfInCheck g.board fr ff tr tf then true
      else if t.type ≠ .none then false
      else sliderHasMove g color fr ff d n (tr + d.1) (tf + d.2)
    else false

def sliderDirs : TTPieceType → List (ℤ × ℤ)
  | .rook => dirs
  | .bishop => ddirs
  | .queen => ddirs ++ dirs
  | _ => []

def ttChessHasLegalMove (g : TTChess) (color : TTColor) : Bool :=
  squares.any fun q =>
    let p := g.board q.1 q.2
    if p.type = .none ∨ p.color ≠ color then false
    else match p.type with
      | .pawn => pawnHasMove g color q.1 q.2
      | .knight => leaperHasMove g color q.1 q.2 kd
      | .king => leaperHasMove g color q.1 q.2 ring
      | type => (sliderDirs type).any fun d =>
          sliderHasMove g color q.1 q.2 d ttChessRanks (q.1 + d.1) (q.2 + d.2)

def pathClear (b : Board) (sr sf tr tf : ℤ) : ℕ → ℤ → ℤ → Bool
  | 0, _, _ => false
  | n + 1, r, f =>
    if r ≠ tr ∨ f ≠ tf then
      if (b r f).type ≠ .none then false else pathClear b sr sf tr tf n (r + sr) (f + sf)
    else true

def sign (d : ℤ) : ℤ := (if 0 < d then 1 else 0) - (if d < 0 then 1 else 0)

def straight (dr df : ℤ) : Bool := decide (dr = 0) != decide (df = 0)

def diag (dr df : ℤ) : Bool := decide (dr ≠ 0) && decide (df ≠ 0) && (dr == df || dr == -df)

def pawnLegal (g : TTChess) (p t : TTPiece) (fr ff tr tf : ℤ) : Bool :=
  let dr := tr - fr
  let df := tf - ff
  if df = 0 ∧ t.type = .none then
    if dr = pawnDir p.color then true
    else dr == 2 * pawnDir p.color && fr == pawnStart p.color &&
      (g.board (fr + pawnDir p.color) ff).type == .none
  else if df = 1 ∨ df = -1 then
    dr == pawnDir p.color && (t.type != .none || (tr == epRank p.color && tf == g.epFile))
  else false

def knightLegal (dr df : ℤ) : Bool := decide ((dr, df) ∈ kd)

def castleKs (g : TTChess) (color : TTColor) (r : ℤ) : Bool :=
  (if color = .white then g.whiteKs else g.blackKs) &&
  (g.board r 5).type == .none && (g.board r 6).type == .none &&
  (g.board r 7).type == .rook && (g.board r 7).color == color &&
  !ttChessSquareAttacked g.board r 4 color.other &&
  !ttChessSquareAttacked g.board r 5 color.other &&
  !ttChessSquareAttacked g.board r 6 color.other

def castleQs (g : TTChess) (color : TTColor) (r : ℤ) : Bool :=
  (if color = .white then g.whiteQs else g.blackQs) &&
  (g.board r 1).type == .none && (g.board r 2).type == .none && (g.board r 3).type == .none &&
  (g.board r 0).type == .rook && (g.board r 0).color == color &&
  !ttChessSquareAttacked g.board r 4 color.other &&
  !ttChessSquareAttacked g.board r 3 color.other &&
  !ttChessSquareAttacked g.board r 2 color.other

def kingLegal (g : TTChess) (p : TTPiece) (fr : ℤ) (dr df : ℤ) : Bool :=
  if -1 ≤ dr ∧ dr ≤ 1 ∧ -1 ≤ df ∧ df ≤ 1 ∧ (dr ≠ 0 ∨ df ≠ 0) then true
  else if dr = 0 ∧ df = 2 then castleKs g p.color fr
  else if dr = 0 ∧ df = -2 then castleQs g p.color fr
  else false

def slideLegal (g : TTChess) (p : TTPiece) (fr ff tr tf : ℤ) : Bool :=
  let dr := tr - fr
  let df := tf - ff
  (p.type == .rook && straight dr df || p.type == .bishop && diag dr df ||
    p.type == .queen && (straight dr df || diag dr df)) &&
  pathClear g.board (sign dr) (sign df) tr tf ttChessRanks (fr + sign dr) (ff + sign df)

def pseudoLegal (g : TTChess) (p t : TTPiece) (fr ff tr tf : ℤ) : Bool :=
  match p.type with
  | .pawn => pawnLegal g p t fr ff tr tf
  | .knight => knightLegal (tr - fr) (tf - ff)
  | .king => kingLegal g p fr (tr - fr) (tf - ff)
  | .none => false
  | _ => slideLegal g p fr ff tr tf

def castleRook (b : Board) (p : TTPiece) (r df : ℤ) : Board :=
  if p.type = .king ∧ df = 2 then (b.set r 5 (b r 7)).clear r 7
  else if p.type = .king ∧ df = -2 then (b.set r 3 (b r 0)).clear r 0
  else b

def epCapture (b : Board) (p t : TTPiece) (fr tf df : ℤ) : Board :=
  if p.type = .pawn ∧ df ≠ 0 ∧ t.type = .none then b.clear fr tf else b

def promoted (p : TTPiece) (tr : ℤ) : TTPiece :=
  if p.type = .pawn ∧ (tr = 0 ∨ tr = 7) then { p with type := .queen } else p

def boardAfter (b : Board) (p t : TTPiece) (fr ff tr tf : ℤ) : Board :=
  let b := castleRook b p fr (tf - ff)
  let b := epCapture b p t fr tf (tf - ff)
  (b.set tr tf (promoted p tr)).clear fr ff

def cornerKept (piece : TTPiece) (rank file r f : ℤ) : Bool :=
  !(piece.type == .rook && rank == r && file == f)

def rightKept (p t : TTPiece) (fr ff tr tf : ℤ) (owner : TTColor) (r f : ℤ) (right : Bool) : Bool :=
  right && !(p.type == .king && p.color == owner) && cornerKept p fr ff r f &&
    cornerKept t tr tf r f

def moveMade (g : TTChess) (p t : TTPiece) (fr ff tr tf : ℤ) : TTChess :=
  { board := boardAfter g.board p t fr ff tr tf
    toMove := g.toMove.other
    whiteKs := rightKept p t fr ff tr tf .white 0 7 g.whiteKs
    whiteQs := rightKept p t fr ff tr tf .white 0 0 g.whiteQs
    blackKs := rightKept p t fr ff tr tf .black 7 7 g.blackKs
    blackQs := rightKept p t fr ff tr tf .black 7 0 g.blackQs
    epFile := if p.type = .pawn ∧ tr - fr = 2 * pawnDir p.color then ff else -1
    status := g.status
    winner := g.winner }

def statusUpdated (g : TTChess) (mover : TTColor) : TTChess :=
  if ttChessInCheck g.board mover.other then
    if !ttChessHasLegalMove g mover.other then { g with status := .checkmate, winner := mover }
    else g
  else if !ttChessHasLegalMove g mover.other then { g with status := .stalemate }
  else g

-- `none` is the source's `false`; it is returned before the game is touched.
def ttChessMove (g : TTChess) (fr ff tr tf : ℤ) : Option TTChess :=
  if !inBounds fr ff || !inBounds tr tf then none
  else
    let p := g.board fr ff
    let t := g.board tr tf
    if p.type = .none ∨ p.color ≠ g.toMove then none
    else if t.type ≠ .none ∧ t.color = p.color then none
    else if !pseudoLegal g p t fr ff tr tf then none
    else some (statusUpdated (moveMade g p t fr ff tr tf) p.color)

end TkTox.Chess
