import TkTox.ChessAttack

/-!
Whole games. The engine checks how a piece may move, but nowhere asks whether the move leaves the
mover's own king attacked; it has the predicate for it, and uses it only to look for mate. A game
is legal exactly as long as every accepted move other than a castling passes that predicate on the
board with an en passant victim taken off.
-/

namespace TkTox.Chess

structure Move where
  fr : ℤ
  ff : ℤ
  tr : ℤ
  tf : ℤ

def playMove (g : TTChess) (m : Move) : TTChess := (ttChessMove g m.fr m.ff m.tr m.tf).getD g

def play (g : TTChess) (ms : List Move) : TTChess := ms.foldl playMove g

def IsKing (b : Board) (c : TTColor) (q : ℤ × ℤ) : Prop :=
  inBounds q.1 q.2 = true ∧ b q.1 q.2 = ⟨.king, c⟩

def LegalPosition (g : TTChess) : Prop :=
  (∀ c, ∃! q, IsKing g.board c q) ∧ ttChessInCheck g.board g.toMove.other = false

def isCastling (g : TTChess) (m : Move) : Prop :=
  (g.board m.fr m.ff).type = .king ∧ (m.tf - m.ff = 2 ∨ m.tf - m.ff = -2)

def epVictimTaken (g : TTChess) (m : Move) : Board :=
  epCapture g.board (g.board m.fr m.ff) (g.board m.tr m.tf) m.fr m.tf (m.tf - m.ff)

def KingKept (g : TTChess) (m : Move) : Prop :=
  isCastling g m ∨ moveLeavesSelfInCheck (epVictimTaken g m) m.fr m.ff m.tr m.tf = false

variable {g g' : TTChess} {m : Move} {b b' : Board} {c : TTColor} {q : ℤ × ℤ}

theorem ttChessInCheck_of_king (h : ∃! q, IsKing b c q) (hq : IsKing b c q) :
    ttChessInCheck b c = ttChessSquareAttacked b q.1 q.2 c.other := by
  have hking (p : ℤ × ℤ) : ((b p.1 p.2).type == .king && (b p.1 p.2).color == c) = true ↔
      b p.1 p.2 = ⟨.king, c⟩ := by
    cases b p.1 p.2
    simp
  rw [ttChessInCheck]
  cases hf : squares.find? fun p => (b p.1 p.2).type == .king && (b p.1 p.2).color == c with
  | none =>
    have hn := List.find?_eq_none.mp hf q (mem_squares.mpr hq.1)
    exact absurd ((hking q).mpr hq.2) hn
  | some p =>
    have hfound := List.find?_some hf
    have hp : IsKing b c p :=
      ⟨mem_squares.mp (List.mem_of_find?_eq_some hf), (hking p).mp hfound⟩
    rw [h.unique hp hq]

theorem ttChessInCheck_congr (hs : ∀ x y, SameTo c.other (b' x y) (b x y))
    (hk : ∀ x y, b' x y = ⟨.king, c⟩ ↔ b x y = ⟨.king, c⟩) :
    ttChessInCheck b' c = ttChessInCheck b c := by
  have hpred : (fun q : ℤ × ℤ => (b' q.1 q.2).type == .king && (b' q.1 q.2).color == c) =
      fun q : ℤ × ℤ => (b q.1 q.2).type == .king && (b q.1 q.2).color == c := by
    funext q
    have hq := hk q.1 q.2
    rw [Bool.eq_iff_iff]
    cases hb : b q.1 q.2
    cases hb' : b' q.1 q.2
    rw [hb, hb'] at hq
    simpa using hq
  rw [ttChessInCheck, ttChessInCheck, hpred]
  cases squares.find? fun q : ℤ × ℤ => (b q.1 q.2).type == .king && (b q.1 q.2).color == c with
  | none => rfl
  | some q => exact ttChessSquareAttacked_congr hs

structure Accepted (g : TTChess) (m : Move) : Prop where
  source : inBounds m.fr m.ff = true
  target : inBounds m.tr m.tf = true
  piece : (g.board m.fr m.ff).type ≠ .none
  turn : (g.board m.fr m.ff).color = g.toMove
  notOwn : (g.board m.tr m.tf).type ≠ .none → (g.board m.tr m.tf).color ≠ g.toMove
  legal : pseudoLegal g (g.board m.fr m.ff) (g.board m.tr m.tf) m.fr m.ff m.tr m.tf = true

theorem statusUpdated_eq (g : TTChess) (c : TTColor) :
    ∃ st w, statusUpdated g c = { g with status := st, winner := w } := by
  unfold statusUpdated
  split_ifs
  · exact ⟨_, _, rfl⟩
  · exact ⟨g.status, g.winner, rfl⟩
  · exact ⟨_, g.winner, rfl⟩
  · exact ⟨g.status, g.winner, rfl⟩

def moveAccepted (g : TTChess) (m : Move) : Bool := (ttChessMove g m.fr m.ff m.tr m.tf).isSome

theorem playMove_cases (g : TTChess) (m : Move) :
    (moveAccepted g m = false ∧ playMove g m = g) ∨ (moveAccepted g m = true ∧ Accepted g m ∧
    ∃ st w, playMove g m = { moveMade g (g.board m.fr m.ff) (g.board m.tr m.tf) m.fr m.ff m.tr m.tf
      with status := st, winner := w }) := by
  simp only [playMove, moveAccepted, ttChessMove]
  split_ifs with h1 h2 h3 h4
  iterate 4 exact Or.inl ⟨rfl, rfl⟩
  refine Or.inr ⟨rfl, ?_⟩
  simp only [Bool.or_eq_true, Bool.not_eq_true', not_or, Bool.not_eq_false] at h1 h4
  push Not at h2 h3
  refine ⟨⟨h1.1, h1.2, h2.1, h2.2, fun ht => ?_, h4⟩, ?_⟩
  · rw [← h2.2]
    exact h3 ht
  · exact statusUpdated_eq _ _

structure GameInv (g : TTChess) : Prop where
  kings : ∀ c, ∃! q, IsKing g.board c q
  safe : ttChessInCheck g.board g.toMove.other = false
  whiteHome : g.whiteKs = true ∨ g.whiteQs = true → g.board 0 4 = ⟨.king, .white⟩
  blackHome : g.blackKs = true ∨ g.blackQs = true → g.board 7 4 = ⟨.king, .black⟩
  ep : inBounds 0 g.epFile = true →
    g.board (epRank g.toMove - pawnDir g.toMove) g.epFile = ⟨.pawn, g.toMove.other⟩

theorem ttChessInit_inv : GameInv ttChessInit := by
  have hk (c : TTColor) : ∀ q ∈ squares, ttChessInit.board q.1 q.2 = ⟨.king, c⟩ →
      q = (if c = .white then 0 else 7, 4) := by
    cases c <;> decide +kernel
  refine ⟨fun c => ⟨(if c = .white then 0 else 7, 4), ?_, fun q hq => ?_⟩, ?_, ?_, ?_, ?_⟩
  · cases c <;> exact ⟨by decide, by decide +kernel⟩
  · exact hk c q (mem_squares.mpr hq.1) hq.2
  · decide +kernel
  · exact fun _ => by decide +kernel
  · exact fun _ => by decide +kernel
  · exact fun h => absurd h (by decide)

def sideBoard (g : TTChess) (m : Move) : Board :=
  epCapture (castleRook g.board (g.board m.fr m.ff) m.fr (m.tf - m.ff)) (g.board m.fr m.ff)
    (g.board m.tr m.tf) m.fr m.tf (m.tf - m.ff)

def after (g : TTChess) (m : Move) : Board :=
  boardAfter g.board (g.board m.fr m.ff) (g.board m.tr m.tf) m.fr m.ff m.tr m.tf

theorem after_apply (g : TTChess) (m : Move) (x y : ℤ) : after g m x y =
    if x = m.fr ∧ y = m.ff then emptyPiece
    else if x = m.tr ∧ y = m.tf then promoted (g.board m.fr m.ff) m.tr
    else sideBoard g m x y := rfl

theorem promoted_color (p : TTPiece) (r : ℤ) : (promoted p r).color = p.color := by
  unfold promoted
  split_ifs <;> rfl

theorem promoted_king (p : TTPiece) (r : ℤ) (c : TTColor) :
    promoted p r = ⟨.king, c⟩ ↔ p = ⟨.king, c⟩ := by
  unfold promoted
  split_ifs with h
  · exact iff_of_false (by simp) fun he => by rw [he] at h; exact absurd h.1 (by simp)
  · exact Iff.rfl

namespace Accepted

theorem ne_source (h : Accepted g m) : ¬ (m.tr = m.fr ∧ m.tf = m.ff) := by
  rintro ⟨h1, h2⟩
  have hn := h.notOwn
  rw [h1, h2] at hn
  exact hn h.piece h.turn

theorem ep_victim (h : Accepted g m) (hg : GameInv g) (hp : (g.board m.fr m.ff).type = .pawn)
    (hdf : m.tf - m.ff ≠ 0) (ht : (g.board m.tr m.tf).type = .none) :
    g.board m.fr m.tf = ⟨.pawn, g.toMove.other⟩ := by
  have hl := h.legal
  have htgt := inBounds_iff.mp h.target
  simp only [pseudoLegal, hp, pawnLegal, hdf, false_and, if_false, h.turn, ht] at hl
  split_ifs at hl with hdf1
  simp only [Bool.and_eq_true, Bool.or_eq_true, bne_self_eq_false, Bool.false_eq_true, false_or,
    beq_iff_eq] at hl
  obtain ⟨hdr, hrank, hfile⟩ := hl
  have hep := hg.ep (inBounds_iff.mpr (by rw [← hfile]; omega))
  rw [← hfile, ← hrank] at hep
  rw [show m.fr = m.tr - pawnDir g.toMove by omega]
  exact hep

theorem castle_home (h : Accepted g m) (hg : GameInv g) (hc : isCastling g m) :
    m.ff = 4 ∧ ((m.tf = 6 ∧ castleKs g g.toMove m.fr = true) ∨
      (m.tf = 2 ∧ castleQs g g.toMove m.fr = true)) := by
  have hp : g.board m.fr m.ff = ⟨.king, g.toMove⟩ := by
    rw [← hc.1, ← h.turn]
  have hl := h.legal
  simp only [pseudoLegal, hp, kingLegal] at hl
  have hnear : ¬ (-1 ≤ m.tr - m.fr ∧ m.tr - m.fr ≤ 1 ∧ -1 ≤ m.tf - m.ff ∧ m.tf - m.ff ≤ 1 ∧
      (m.tr - m.fr ≠ 0 ∨ m.tf - m.ff ≠ 0)) := by
    rcases hc.2 with e | e <;> omega
  rw [if_neg hnear] at hl
  have hhome (hr : (if g.toMove = .white then g.whiteKs else g.blackKs) = true ∨
      (if g.toMove = .white then g.whiteQs else g.blackQs) = true) : m.ff = 4 := by
    cases hm : g.toMove with
    | white =>
      simp only [hm, if_true] at hr
      have hk : (m.fr, m.ff) = ((0, 4) : ℤ × ℤ) := (hg.kings .white).unique
        ⟨h.source, by rw [hp, hm]⟩ ⟨by decide, hg.whiteHome hr⟩
      exact congrArg Prod.snd hk
    | black =>
      simp only [hm, reduceCtorEq, if_false] at hr
      have hk : (m.fr, m.ff) = ((7, 4) : ℤ × ℤ) := (hg.kings .black).unique
        ⟨h.source, by rw [hp, hm]⟩ ⟨by decide, hg.blackHome hr⟩
      exact congrArg Prod.snd hk
  split_ifs at hl with h1 h2
  · have hr : (if g.toMove = .white then g.whiteKs else g.blackKs) = true := by
      simp only [castleKs, Bool.and_eq_true] at hl
      exact hl.1.1.1.1.1.1.1
    have h4 := hhome (Or.inl hr)
    exact ⟨h4, Or.inl ⟨by omega, hl⟩⟩
  · have hr : (if g.toMove = .white then g.whiteQs else g.blackQs) = true := by
      simp only [castleQs, Bool.and_eq_true] at hl
      exact hl.1.1.1.1.1.1.1.1
    have h4 := hhome (Or.inr hr)
    exact ⟨h4, Or.inr ⟨by omega, hl⟩⟩

theorem castle_row (h : Accepted g m) (hc : isCastling g m) : m.tr = m.fr := by
  have hl := h.legal
  simp only [pseudoLegal, hc.1, kingLegal] at hl
  split_ifs at hl with h1 h2 h3
  · rcases hc.2 with e | e <;> omega
  · omega
  · omega

theorem sideBoard_king (h : Accepted g m) (hg : GameInv g) (x y : ℤ) (c : TTColor) :
    sideBoard g m x y = ⟨.king, c⟩ ↔ g.board x y = ⟨.king, c⟩ := by
  have hclear {b : Board} {r f : ℤ} (hk : (b r f).type ≠ .king) :
      b.clear r f x y = ⟨.king, c⟩ ↔ b x y = ⟨.king, c⟩ := by
    rw [Board.clear, Board.set]
    split_ifs with hxy
    · obtain ⟨rfl, rfl⟩ := hxy
      exact iff_of_false (by simp [emptyPiece]) fun he => hk (by rw [he])
    · exact Iff.rfl
  have hset {b : Board} {r f : ℤ} {p : TTPiece} (hk : (b r f).type ≠ .king) (hp : p.type ≠ .king) :
      b.set r f p x y = ⟨.king, c⟩ ↔ b x y = ⟨.king, c⟩ := by
    rw [Board.set]
    split_ifs with hxy
    · obtain ⟨rfl, rfl⟩ := hxy
      exact iff_of_false (fun he => hp (by rw [he])) fun he => hk (by rw [he])
    · exact Iff.rfl
  by_cases hc : isCastling g m
  · obtain ⟨h4, hside⟩ := h.castle_home hg hc
    have hnp : ¬ ((g.board m.fr m.ff).type = .pawn ∧ m.tf - m.ff ≠ 0 ∧
        (g.board m.tr m.tf).type = .none) := by
      rw [hc.1]
      simp
    rw [sideBoard, epCapture, if_neg hnp, castleRook]
    rcases hside with ⟨htf, hks⟩ | ⟨htf, hqs⟩
    · simp only [castleKs, Bool.and_eq_true, beq_iff_eq] at hks
      have h7 := hks.1.1.1.1.2
      have h5 := hks.1.1.1.1.1.1.2
      rw [if_pos ⟨hc.1, by omega⟩, hclear, hset]
      · rw [h5]; simp
      · rw [h7]; simp
      · simp [Board.set, h7]
    · simp only [castleQs, Bool.and_eq_true, beq_iff_eq] at hqs
      have h0 := hqs.1.1.1.1.2
      have h3 := hqs.1.1.1.1.1.2
      rw [if_neg fun h2 => absurd h2.2 (by omega), if_pos ⟨hc.1, by omega⟩, hclear, hset]
      · rw [h3]; simp
      · rw [h0]; simp
      · simp [Board.set, h0]
  · have hr : castleRook g.board (g.board m.fr m.ff) m.fr (m.tf - m.ff) = g.board := by
      rw [castleRook, if_neg fun h2 => hc ⟨h2.1, Or.inl h2.2⟩, if_neg fun h2 => hc ⟨h2.1, Or.inr h2.2⟩]
    rw [sideBoard, hr, epCapture]
    split_ifs with hep
    · have hv := h.ep_victim hg hep.1 hep.2.1 hep.2.2
      exact hclear (by rw [hv]; simp)
    · exact Iff.rfl

theorem target_not_king (h : Accepted g m) (hg : GameInv g) :
    (g.board m.tr m.tf).type ≠ .king := by
  intro hk
  have hne : (g.board m.tr m.tf).type ≠ .none := by rw [hk]; simp
  by_cases hc : isCastling g m
  · obtain ⟨h4, hside⟩ := h.castle_home hg hc
    have hrow := h.castle_row hc
    rcases hside with ⟨htf, hks⟩ | ⟨htf, hqs⟩
    · simp only [castleKs, Bool.and_eq_true, beq_iff_eq] at hks
      rw [hrow, htf] at hne
      exact hne hks.1.1.1.1.1.2
    · simp only [castleQs, Bool.and_eq_true, beq_iff_eq] at hqs
      rw [hrow, htf] at hne
      exact hne hqs.1.1.1.1.1.1.2
  · -- the king was attacked, so the side that just moved was in check
    have hat := pseudoLegal_attacks h.source h.target rfl hne
      (fun hp => ⟨fun e => hc ⟨hp, Or.inl e⟩, fun e => hc ⟨hp, Or.inr e⟩⟩) h.legal
    rw [h.turn] at hat
    have hcol : (g.board m.tr m.tf).color = g.toMove.other :=
      (g.toMove.eq_or_eq_other _).resolve_left (h.notOwn hne)
    have hking : IsKing g.board g.toMove.other (m.tr, m.tf) :=
      ⟨h.target, by rw [← hk, ← hcol]⟩
    have hs := hg.safe
    rw [ttChessInCheck_of_king (hg.kings _) hking, TTColor.other_other, hat] at hs
    cases hs

theorem after_king (h : Accepted g m) (hg : GameInv g) (x y : ℤ) (c : TTColor)
    (hne : g.board m.fr m.ff ≠ ⟨.king, c⟩) :
    after g m x y = ⟨.king, c⟩ ↔ g.board x y = ⟨.king, c⟩ := by
  rw [after_apply]
  split_ifs with h1 h2
  · obtain ⟨rfl, rfl⟩ := h1
    exact iff_of_false (by simp [emptyPiece]) hne
  · obtain ⟨rfl, rfl⟩ := h2
    exact iff_of_false (fun he => hne ((promoted_king _ _ _).mp he))
      fun he => h.target_not_king hg (by rw [he])
  · exact h.sideBoard_king hg x y c

theorem after_moved_king (h : Accepted g m) (hg : GameInv g) (x y : ℤ) (hin : inBounds x y = true)
    (hp : g.board m.fr m.ff = ⟨.king, g.toMove⟩) :
    after g m x y = ⟨.king, g.toMove⟩ ↔ x = m.tr ∧ y = m.tf := by
  rw [after_apply]
  split_ifs with h1 h2
  · refine iff_of_false (by simp [emptyPiece]) fun h3 => h.ne_source ?_
    rw [← h3.1, ← h3.2]
    exact h1
  · exact iff_of_true ((promoted_king _ _ _).mpr hp) h2
  · rw [h.sideBoard_king hg]
    refine iff_of_false (fun hk => h1 ?_) h2
    have := (hg.kings g.toMove).unique (show IsKing g.board g.toMove (x, y) from ⟨hin, hk⟩)
      (show IsKing g.board g.toMove (m.fr, m.ff) from ⟨h.source, hp⟩)
    exact Prod.mk.inj this

theorem after_kings (h : Accepted g m) (hg : GameInv g) (c : TTColor) :
    ∃! q, IsKing (after g m) c q := by
  by_cases hp : g.board m.fr m.ff = ⟨.king, c⟩
  · have hc : c = g.toMove := by
      rw [← h.turn, hp]
    subst hc
    refine ⟨(m.tr, m.tf), ⟨h.target, (h.after_moved_king hg _ _ h.target hp).mpr ⟨rfl, rfl⟩⟩, ?_⟩
    intro q hq
    exact Prod.ext_iff.mpr ((h.after_moved_king hg _ _ hq.1 hp).mp hq.2)
  · obtain ⟨q, hq, huniq⟩ := hg.kings c
    refine ⟨q, ⟨hq.1, (h.after_king hg _ _ c hp).mpr hq.2⟩, fun q' hq' => huniq q' ?_⟩
    exact ⟨hq'.1, (h.after_king hg _ _ c hp).mp hq'.2⟩

/-! ### The mover's king after the move -/

theorem after_inCheck (h : Accepted g m) (hc : ¬ isCastling g m) :
    ttChessInCheck (after g m) g.toMove =
      moveLeavesSelfInCheck (epVictimTaken g m) m.fr m.ff m.tr m.tf := by
  have hside : sideBoard g m = epVictimTaken g m := by
    rw [sideBoard, castleRook, if_neg fun h2 => hc ⟨h2.1, Or.inl h2.2⟩,
      if_neg fun h2 => hc ⟨h2.1, Or.inr h2.2⟩, epVictimTaken]
  have hsrc : epVictimTaken g m m.fr m.ff = g.board m.fr m.ff := by
    rw [epVictimTaken, epCapture]
    split_ifs with hep
    · rw [Board.clear, Board.set, if_neg fun h2 => hep.2.1 (by omega)]
    · rfl
  have hmoved (x y : ℤ) : movedBoard (epVictimTaken g m) m.fr m.ff m.tr m.tf x y =
      if x = m.fr ∧ y = m.ff then emptyPiece
      else if x = m.tr ∧ y = m.tf then g.board m.fr m.ff
      else epVictimTaken g m x y := by
    rw [movedBoard, hsrc]
    rfl
  rw [moveLeavesSelfInCheck, hmoved, if_neg h.ne_source, if_pos ⟨rfl, rfl⟩, h.turn]
  refine ttChessInCheck_congr (fun x y => ?_) fun x y => ?_
  · rw [after_apply, hmoved, hside]
    split_ifs with h1 h2
    · exact Or.inl rfl
    · -- a promotion changes the kind of a piece the attacker only sees as an obstacle
      refine Or.inr ⟨?_, ?_, h.piece, ?_⟩
      · unfold promoted
        split_ifs
        · simp
        · exact h.piece
      · rw [promoted_color, h.turn]
        exact g.toMove.other_ne.symm
      · rw [h.turn]
        exact g.toMove.other_ne.symm
    · exact Or.inl rfl
  · rw [after_apply, hmoved, hside]
    split_ifs with h1 h2
    · exact Iff.rfl
    · exact promoted_king _ _ _
    · exact Iff.rfl

theorem after_castled (h : Accepted g m) (hg : GameInv g) (hc : isCastling g m) :
    ttChessInCheck (after g m) g.toMove = false := by
  obtain ⟨h4, hside⟩ := h.castle_home hg hc
  have hrow := h.castle_row hc
  have hp : g.board m.fr m.ff = ⟨.king, g.toMove⟩ := by
    rw [← hc.1, ← h.turn]
  have hking : IsKing (after g m) g.toMove (m.tr, m.tf) :=
    ⟨h.target, (h.after_moved_king hg _ _ h.target hp).mpr ⟨rfl, rfl⟩⟩
  rw [ttChessInCheck_of_king (h.after_kings hg _) hking]
  have hnp : ¬ ((g.board m.fr m.ff).type = .pawn ∧ m.tf - m.ff ≠ 0 ∧
      (g.board m.tr m.tf).type = .none) := by
    rw [hc.1]
    simp
  have happly (x y : ℤ) : after g m x y = if x = m.fr ∧ y = m.ff then emptyPiece
      else if x = m.tr ∧ y = m.tf then promoted (g.board m.fr m.ff) m.tr
      else castleRook g.board (g.board m.fr m.ff) m.fr (m.tf - m.ff) x y := by
    rw [after_apply, sideBoard, epCapture, if_neg hnp]
  by_contra hat
  rw [Bool.not_eq_false] at hat
  rcases hside with ⟨htf, hks⟩ | ⟨htf, hqs⟩
  · have hrook : castleRook g.board (g.board m.fr m.ff) m.fr (m.tf - m.ff) =
        (g.board.set m.fr 5 (g.board m.fr 7)).clear m.fr 7 := by
      rw [castleRook, if_pos ⟨hc.1, by omega⟩]
    simp only [castleKs, Bool.and_eq_true, beq_iff_eq, Bool.not_eq_true'] at hks
    obtain ⟨⟨⟨⟨⟨-, hty⟩, hco⟩, -⟩, -⟩, h6⟩ := hks
    have hbefore := ttChessSquareAttacked_of_rowShut (b := g.board) (r := m.tr) (f := m.tf)
      (fun x y hx => by
        rw [happly, hrook, if_neg (by omega), if_neg (by omega), Board.clear, Board.set,
          if_neg (by omega), Board.set, if_neg (by omega)])
      (Or.inl (by
        rw [happly, hrook, hrow, htf, h4, if_neg (by omega), if_neg (by omega), Board.clear,
          Board.set, if_neg (by omega), Board.set, if_pos (by omega), hty, hco]
        exact ⟨by simp, g.toMove.other_ne.symm⟩))
      (Or.inr fun k hk => by
        rw [inBounds_iff] at hk
        rw [happly, hrook, hrow, htf, h4, if_neg (by omega), if_neg (by omega), Board.clear,
          Board.set, if_pos (by omega)]
        rfl) hat
    rw [hrow, htf, h6] at hbefore
    cases hbefore
  · have hrook : castleRook g.board (g.board m.fr m.ff) m.fr (m.tf - m.ff) =
        (g.board.set m.fr 3 (g.board m.fr 0)).clear m.fr 0 := by
      rw [castleRook, if_neg fun h2 => absurd h2.2 (by omega), if_pos ⟨hc.1, by omega⟩]
    simp only [castleQs, Bool.and_eq_true, beq_iff_eq, Bool.not_eq_true'] at hqs
    obtain ⟨⟨⟨⟨⟨⟨⟨⟨-, h1⟩, -⟩, -⟩, hty⟩, hco⟩, -⟩, -⟩, h2⟩ := hqs
    have hbefore := ttChessSquareAttacked_of_rowShut (b := g.board) (r := m.tr) (f := m.tf)
      (fun x y hx => by
        rw [happly, hrook, if_neg (by omega), if_neg (by omega), Board.clear, Board.set,
          if_neg (by omega), Board.set, if_neg (by omega)])
      (Or.inr fun k hk => by
        rw [inBounds_iff] at hk
        rw [happly, hrook, hrow, htf, h4, if_neg (by omega), if_neg (by omega), Board.clear,
          Board.set]
        split_ifs with h0
        · rfl
        · have hk1 : (2 : ℤ) + -1 + k * -1 = 1 := by omega
          rw [Board.set, if_neg (by omega), hk1]
          exact h1)
      (Or.inl (by
        rw [happly, hrook, hrow, htf, h4, if_neg (by omega), if_neg (by omega), Board.clear,
          Board.set, if_neg (by omega), Board.set, if_pos (by omega), hty, hco]
        exact ⟨by simp, g.toMove.other_ne.symm⟩)) hat
    rw [hrow, htf, h2] at hbefore
    cases hbefore

theorem inCheck_iff (h : Accepted g m) (hg : GameInv g) :
    ttChessInCheck (after g m) g.toMove = false ↔ KingKept g m := by
  by_cases hc : isCastling g m
  · exact iff_of_true (h.after_castled hg hc) (Or.inl hc)
  · rw [h.after_inCheck hc]
    exact (or_iff_right hc).symm

theorem home_kept (h : Accepted g m) (hg : GameInv g) {owner : TTColor} {r f r' f' : ℤ}
    {ks qs : Bool} (hhome : ks = true ∨ qs = true → g.board r f = ⟨.king, owner⟩)
    (hk : rightKept (g.board m.fr m.ff) (g.board m.tr m.tf) m.fr m.ff m.tr m.tf owner r' 7 ks = true ∨
      rightKept (g.board m.fr m.ff) (g.board m.tr m.tf) m.fr m.ff m.tr m.tf owner r' f' qs = true) :
    after g m r f = ⟨.king, owner⟩ := by
  simp only [rightKept, Bool.and_eq_true, Bool.not_eq_true'] at hk
  have hking : ((g.board m.fr m.ff).type == .king && (g.board m.fr m.ff).color == owner) = false := by
    rcases hk with hk | hk
    · exact hk.1.1.2
    · exact hk.1.1.2
  have hne : g.board m.fr m.ff ≠ ⟨.king, owner⟩ := by
    intro he
    simp [he] at hking
  rw [h.after_king hg _ _ owner hne]
  apply hhome
  rcases hk with hk | hk
  · exact Or.inl hk.1.1.1
  · exact Or.inr hk.1.1.1

theorem ep_kept (h : Accepted g m)
    (hdouble : (g.board m.fr m.ff).type = .pawn ∧
      m.tr - m.fr = 2 * pawnDir (g.board m.fr m.ff).color) :
    after g m (epRank g.toMove.other - pawnDir g.toMove.other) m.ff =
      ⟨.pawn, g.toMove.other.other⟩ := by
  have hl := h.legal
  obtain ⟨hp, hdr⟩ := hdouble
  rw [h.turn] at hdr
  simp only [pseudoLegal, hp, pawnLegal, h.turn, hdr] at hl
  have hd : pawnDir g.toMove ≠ 0 := by
    rw [pawnDir]
    split_ifs <;> simp
  have hnd : ¬ 2 * pawnDir g.toMove = pawnDir g.toMove := by omega
  split_ifs at hl with h1 h2
  · simp only [Bool.and_eq_true, beq_iff_eq, true_and] at hl
    have hrank : epRank g.toMove.other - pawnDir g.toMove.other = m.tr := by
      have h3 := hl.1
      cases hm : g.toMove <;> rw [hm] at h3 hdr <;>
        simp only [TTColor.other, epRank, pawnDir, pawnStart, reduceCtorEq, if_true, if_false] at h3 hdr ⊢ <;>
        omega
    have hne : ¬ (m.tr = m.fr ∧ m.ff = m.ff) := by omega
    have hlast : ¬ (m.tr = 0 ∨ m.tr = 7) := by
      rw [← hrank]
      cases g.toMove <;> simp [TTColor.other, epRank, pawnDir]
    rw [hrank, after_apply, if_neg hne, if_pos ⟨rfl, by omega⟩, promoted, if_neg fun h3 => hlast h3.2,
      TTColor.other_other, ← hp, ← h.turn]
  · simp only [Bool.and_eq_true, beq_iff_eq] at hl
    exact absurd hl.1 hnd

end Accepted

theorem playMove_inv (hg : GameInv g) (hk : moveAccepted g m = true → KingKept g m) :
    GameInv (playMove g m) := by
  rcases playMove_cases g m with ⟨-, he⟩ | ⟨hacc, h, st, w, he⟩
  · rw [he]
    exact hg
  · rw [he]
    refine ⟨h.after_kings hg, ?_, h.home_kept hg hg.whiteHome, h.home_kept hg hg.blackHome, ?_⟩
    · have hs := (h.inCheck_iff hg).mpr (hk hacc)
      simp only [moveMade, TTColor.other_other]
      exact hs
    · intro hin
      simp only [moveMade] at hin ⊢
      split_ifs at hin ⊢ with hd
      · exact h.ep_kept hd
      · exact absurd hin (by decide)

theorem kingKept_of_legal (hg : GameInv g) (hl : LegalPosition (playMove g m))
    (hacc : moveAccepted g m = true) : KingKept g m := by
  rcases playMove_cases g m with ⟨hn, -⟩ | ⟨-, h, st, w, he⟩
  · rw [hn] at hacc
    cases hacc
  · rw [he] at hl
    have hs := hl.2
    simp only [moveMade, TTColor.other_other] at hs
    exact (h.inCheck_iff hg).mp hs

theorem play_take_succ (g : TTChess) {ms : List Move} {k : ℕ} (hk : k < ms.length) :
    play g (ms.take (k + 1)) = playMove (play g (ms.take k)) ms[k] := by
  rw [play, List.take_succ_eq_append_getElem hk, List.foldl_append]
  rfl

theorem play_inv {ms : List Move} {n : ℕ} (hn : n ≤ ms.length)
    (h : ∀ k < n, ∀ m ∈ ms[k]?, moveAccepted (play ttChessInit (ms.take k)) m = true →
      KingKept (play ttChessInit (ms.take k)) m) : GameInv (play ttChessInit (ms.take n)) := by
  induction n with
  | zero => exact ttChessInit_inv
  | succ n ih =>
    rw [play_take_succ _ (by omega)]
    exact playMove_inv (ih (by omega) fun k hk => h k (by omega))
      (h n (by omega) _ (List.getElem?_eq_getElem (by omega)))

theorem chess_legal_iff (ms : List Move) :
    (∀ k ≤ ms.length, LegalPosition (play ttChessInit (ms.take k))) ↔
      ∀ k, ∀ m ∈ ms[k]?, moveAccepted (play ttChessInit (ms.take k)) m = true →
        KingKept (play ttChessInit (ms.take k)) m := by
  constructor
  · intro hl k
    induction k using Nat.strong_induction_on with
    | _ k ih =>
      intro m hm hacc
      obtain ⟨hk, rfl⟩ := List.getElem?_eq_some_iff.mp hm
      refine kingKept_of_legal (play_inv hk.le ih) ?_ hacc
      rw [← play_take_succ _ hk]
      exact hl (k + 1) hk
  · intro h k hk
    have hg := play_inv hk fun j _ => h j
    exact ⟨hg.kings, hg.safe⟩

-- 1. f3 e5 2. g4 Qh4 mates, and 3. a3 is taken all the same.
def foolsGame : List Move :=
  [⟨1, 5, 2, 5⟩, ⟨6, 4, 4, 4⟩, ⟨1, 6, 3, 6⟩, ⟨7, 3, 3, 7⟩, ⟨1, 0, 2, 0⟩]

theorem foolsGame_illegal :
    moveAccepted (play ttChessInit (foolsGame.take 4)) ⟨1, 0, 2, 0⟩ = true ∧
      (play ttChessInit (foolsGame.take 4)).status = .checkmate ∧
      ttChessInCheck (play ttChessInit foolsGame).board .white = true ∧
      ¬ LegalPosition (play ttChessInit foolsGame) := by
  have hcheck : ttChessInCheck (play ttChessInit foolsGame).board .white = true := by
    decide +kernel
  refine ⟨by decide +kernel, by decide +kernel, hcheck, fun h => ?_⟩
  have hmove : (play ttChessInit foolsGame).toMove.other = .white := by decide +kernel
  have hs := h.2
  rw [hmove, hcheck] at hs
  cases hs

end TkTox.Chess
