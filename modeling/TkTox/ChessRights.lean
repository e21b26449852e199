import TkTox.ChessGame

/-!
Castling rights. A right is cleared by what happens on four corner squares and by a king's move,
never by looking at the board, and the castling code takes the king's file for granted. Over every
run of the engine, legal or not, a right that is still held means that nothing has moved.
-/

namespace TkTox.Chess

variable {g : TTChess} {m : Move} {c : TTColor} {r f x y : ℤ}

def homeRank : TTColor → ℤ
  | .white => 0
  | .black => 7

def ksRight (g : TTChess) (c : TTColor) : Bool := if c = .white then g.whiteKs else g.blackKs

def qsRight (g : TTChess) (c : TTColor) : Bool := if c = .white then g.whiteQs else g.blackQs

def KingsHome (g : TTChess) (c : TTColor) : Prop :=
  ∀ q, IsKing g.board c q → q = (homeRank c, 4)

structure CastlingRights (g : TTChess) : Prop where
  ksRook : ∀ c, ksRight g c = true → g.board (homeRank c) 7 = ⟨.rook, c⟩
  qsRook : ∀ c, qsRight g c = true → g.board (homeRank c) 0 = ⟨.rook, c⟩
  kings : ∀ c, ksRight g c = true ∨ qsRight g c = true → KingsHome g c

def castledBoard (b : Board) (c : TTColor) (kingFile rookFile corner : ℤ) : Board :=
  (((b.clear (homeRank c) 4).clear (homeRank c) corner).set (homeRank c) kingFile ⟨.king, c⟩).set
    (homeRank c) rookFile ⟨.rook, c⟩

theorem homeRank_eq : homeRank c = 0 ∨ homeRank c = 7 := by
  cases c
  · exact Or.inl rfl
  · exact Or.inr rfl

theorem homeRank_inj {d : TTColor} : homeRank c = homeRank d ↔ c = d := by
  cases c <;> cases d <;> decide

theorem rightKept_iff {p t : TTPiece} {fr ff tr tf : ℤ} {right : Bool} :
    rightKept p t fr ff tr tf c r f right = true ↔ right = true ∧ p ≠ ⟨.king, c⟩ ∧
      ¬ (p.type = .rook ∧ fr = r ∧ ff = f) ∧ ¬ (t.type = .rook ∧ tr = r ∧ tf = f) := by
  cases p
  simp only [rightKept, cornerKept, Bool.and_eq_true, Bool.not_eq_true', Bool.and_eq_false_iff,
    beq_eq_false_iff_ne, ne_eq, TTPiece.mk.injEq, not_and_or, and_assoc, or_assoc]

namespace Accepted

theorem castle_legal (h : Accepted g m) (hc : isCastling g m) : m.tr = m.fr ∧
    ((m.tf - m.ff = 2 ∧ castleKs g g.toMove m.fr = true) ∨
      (m.tf - m.ff = -2 ∧ castleQs g g.toMove m.fr = true)) := by
  have hl := h.legal
  simp only [pseudoLegal, hc.1, kingLegal, h.turn] at hl
  have hnear : ¬ (-1 ≤ m.tr - m.fr ∧ m.tr - m.fr ≤ 1 ∧ -1 ≤ m.tf - m.ff ∧ m.tf - m.ff ≤ 1 ∧
      (m.tr - m.fr ≠ 0 ∨ m.tf - m.ff ≠ 0)) := by
    obtain e | e := hc.2 <;> omega
  rw [if_neg hnear] at hl
  split_ifs at hl with h1 h2
  · exact ⟨by omega, Or.inl ⟨h1.2, hl⟩⟩
  · exact ⟨by omega, Or.inr ⟨h2.2, hl⟩⟩

theorem piece_eq (h : Accepted g m) (hc : isCastling g m) :
    g.board m.fr m.ff = ⟨.king, g.toMove⟩ := by
  rw [← hc.1, ← h.turn]

theorem ep_squares (h : Accepted g m) (hp : (g.board m.fr m.ff).type = .pawn)
    (hdf : m.tf - m.ff ≠ 0) (ht : (g.board m.tr m.tf).type = .none) :
    m.fr = epRank g.toMove - pawnDir g.toMove ∧ m.tr = epRank g.toMove ∧ m.tf = g.epFile := by
  have hl := h.legal
  simp only [pseudoLegal, hp, pawnLegal, hdf, false_and, if_false, h.turn, ht] at hl
  split_ifs at hl with hdf1
  simp only [Bool.and_eq_true, Bool.or_eq_true, bne_self_eq_false, Bool.false_eq_true, false_or,
    beq_iff_eq] at hl
  obtain ⟨hdr, hrank, hfile⟩ := hl
  exact ⟨by omega, hrank, hfile⟩

theorem castle_kings (h : Accepted g m)
    (hr : ∀ c, ksRight g c = true ∨ qsRight g c = true → KingsHome g c) (hc : isCastling g m) :
    m.fr = homeRank g.toMove ∧ m.ff = 4 := by
  obtain ⟨-, hside⟩ := h.castle_legal hc
  have hright : ksRight g g.toMove = true ∨ qsRight g g.toMove = true := by
    obtain ⟨-, hks⟩ | ⟨-, hqs⟩ := hside
    · simp only [castleKs, Bool.and_eq_true] at hks
      exact Or.inl hks.1.1.1.1.1.1.1
    · simp only [castleQs, Bool.and_eq_true] at hqs
      exact Or.inr hqs.1.1.1.1.1.1.1.1
  have hq := hr g.toMove hright (m.fr, m.ff) ⟨h.source, h.piece_eq hc⟩
  exact Prod.mk.inj hq

theorem sideBoard_eq_or (h : Accepted g m) :
    sideBoard g m x y = g.board x y ∨
      (isCastling g m ∧ x = m.fr ∧ (sideBoard g m x y).type ≠ .king) ∨
      (x = epRank g.toMove - pawnDir g.toMove ∧ sideBoard g m x y = emptyPiece) := by
  by_cases hc : isCastling g m
  · have hnp : ¬ ((g.board m.fr m.ff).type = .pawn ∧ m.tf - m.ff ≠ 0 ∧
        (g.board m.tr m.tf).type = .none) := by
      rw [hc.1]
      simp
    obtain ⟨-, ⟨hdf, hks⟩ | ⟨hdf, hqs⟩⟩ := h.castle_legal hc
    · simp only [castleKs, Bool.and_eq_true, beq_iff_eq] at hks
      have h7 := hks.1.1.1.1.2
      rw [sideBoard, epCapture, if_neg hnp, castleRook, if_pos ⟨hc.1, hdf⟩, Board.clear, Board.set]
      split_ifs with h1
      · exact Or.inr (Or.inl ⟨hc, h1.1, by simp [emptyPiece]⟩)
      · rw [Board.set]
        split_ifs with h2
        · exact Or.inr (Or.inl ⟨hc, h2.1, by simp [h7]⟩)
        · exact Or.inl rfl
    · simp only [castleQs, Bool.and_eq_true, beq_iff_eq] at hqs
      have h0 := hqs.1.1.1.1.2
      rw [sideBoard, epCapture, if_neg hnp, castleRook, if_neg fun h2 => absurd h2.2 (by omega),
        if_pos ⟨hc.1, hdf⟩, Board.clear, Board.set]
      split_ifs with h1
      · exact Or.inr (Or.inl ⟨hc, h1.1, by simp [emptyPiece]⟩)
      · rw [Board.set]
        split_ifs with h2
        · exact Or.inr (Or.inl ⟨hc, h2.1, by simp [h0]⟩)
        · exact Or.inl rfl
  · have hrook : castleRook g.board (g.board m.fr m.ff) m.fr (m.tf - m.ff) = g.board := by
      rw [castleRook, if_neg fun h2 => hc ⟨h2.1, Or.inl h2.2⟩, if_neg fun h2 => hc ⟨h2.1, Or.inr h2.2⟩]
    rw [sideBoard, hrook, epCapture]
    split_ifs with hep
    · rw [Board.clear, Board.set]
      split_ifs with h1
      · apply Or.inr ∘ Or.inr
        exact ⟨h1.1.trans (h.ep_squares hep.1 hep.2.1 hep.2.2).1, rfl⟩
      · exact Or.inl rfl
    · exact Or.inl rfl

theorem sideBoard_home (h : Accepted g m) (hr : CastlingRights g)
    (hk : g.board m.fr m.ff ≠ ⟨.king, c⟩) :
    sideBoard g m (homeRank c) y = g.board (homeRank c) y := by
  obtain he | ⟨hc, hx, -⟩ | ⟨hx, -⟩ := h.sideBoard_eq_or (x := homeRank c) (y := y)
  · exact he
  · -- the other side's king castles on the other side's home rank
    rw [(h.castle_kings hr.kings hc).1, homeRank_inj] at hx
    rw [h.piece_eq hc, hx] at hk
    exact absurd rfl hk
  · exfalso
    revert hx
    cases c <;> cases g.toMove <;> decide

theorem after_king_of (h : Accepted g m) (hk : g.board m.fr m.ff ≠ ⟨.king, c⟩)
    (ha : after g m x y = ⟨.king, c⟩) : g.board x y = ⟨.king, c⟩ := by
  rw [after_apply] at ha
  split_ifs at ha with h1 h2
  · cases ha
  · exact absurd ((promoted_king _ _ _).mp ha) hk
  · obtain he | ⟨-, -, hne⟩ | ⟨-, he⟩ := h.sideBoard_eq_or (x := x) (y := y)
    · rw [← he]
      exact ha
    · rw [ha] at hne
      exact absurd rfl hne
    · rw [ha] at he
      cases he

theorem after_corner (h : Accepted g m) (hr : CastlingRights g) {right : Bool}
    (hk : rightKept (g.board m.fr m.ff) (g.board m.tr m.tf) m.fr m.ff m.tr m.tf c (homeRank c) f
      right = true)
    (hrook : right = true → g.board (homeRank c) f = ⟨.rook, c⟩) :
    after g m (homeRank c) f = ⟨.rook, c⟩ := by
  obtain ⟨hright, hking, hsrc, htgt⟩ := rightKept_iff.mp hk
  have hb := hrook hright
  rw [after_apply]
  split_ifs with h1 h2
  · rw [h1.1, h1.2] at hb
    exact absurd ⟨by rw [hb], h1.1.symm, h1.2.symm⟩ hsrc
  · rw [h2.1, h2.2] at hb
    exact absurd ⟨by rw [hb], h2.1.symm, h2.2.symm⟩ htgt
  · rw [h.sideBoard_home hr hking, hb]

theorem rights_kept (h : Accepted g m) (hr : CastlingRights g) {st : TTChessStatus} {w : TTColor} :
    CastlingRights { moveMade g (g.board m.fr m.ff) (g.board m.tr m.tf) m.fr m.ff m.tr m.tf with
      status := st, winner := w } := by
  have hks (c : TTColor) (hk : ksRight { moveMade g (g.board m.fr m.ff) (g.board m.tr m.tf) m.fr m.ff
      m.tr m.tf with status := st, winner := w } c = true) :
      rightKept (g.board m.fr m.ff) (g.board m.tr m.tf) m.fr m.ff m.tr m.tf c (homeRank c) 7
        (ksRight g c) = true := by
    cases c <;> exact hk
  have hqs (c : TTColor) (hk : qsRight { moveMade g (g.board m.fr m.ff) (g.board m.tr m.tf) m.fr m.ff
      m.tr m.tf with status := st, winner := w } c = true) :
      rightKept (g.board m.fr m.ff) (g.board m.tr m.tf) m.fr m.ff m.tr m.tf c (homeRank c) 0
        (qsRight g c) = true := by
    cases c <;> exact hk
  refine ⟨fun c hc => h.after_corner hr (hks c hc) (hr.ksRook c),
    fun c hc => h.after_corner hr (hqs c hc) (hr.qsRook c), fun c hc q hq => ?_⟩
  have hkept : g.board m.fr m.ff ≠ ⟨.king, c⟩ ∧ (ksRight g c = true ∨ qsRight g c = true) := by
    obtain hc | hc := hc
    · obtain ⟨h1, h2, -⟩ := rightKept_iff.mp (hks c hc)
      exact ⟨h2, Or.inl h1⟩
    · obtain ⟨h1, h2, -⟩ := rightKept_iff.mp (hqs c hc)
      exact ⟨h2, Or.inr h1⟩
  apply hr.kings c hkept.2 q
  exact ⟨hq.1, h.after_king_of hkept.1 hq.2⟩

theorem castled (h : Accepted g m) (hr : CastlingRights g) (hc : isCastling g m) :
    m.fr = homeRank g.toMove ∧ m.ff = 4 ∧ m.tr = homeRank g.toMove ∧
      ((m.tf = 6 ∧ ksRight g g.toMove = true ∧ after g m = castledBoard g.board g.toMove 6 5 7) ∨
        (m.tf = 2 ∧ qsRight g g.toMove = true ∧ after g m = castledBoard g.board g.toMove 2 3 0)) := by
  obtain ⟨hfr, hff⟩ := h.castle_kings hr.kings hc
  obtain ⟨htr, hside⟩ := h.castle_legal hc
  have hnp : ¬ ((g.board m.fr m.ff).type = .pawn ∧ m.tf - m.ff ≠ 0 ∧
      (g.board m.tr m.tf).type = .none) := by
    rw [hc.1]
    simp
  have hking : promoted (g.board m.fr m.ff) m.tr = ⟨.king, g.toMove⟩ :=
    (promoted_king _ _ _).mpr (h.piece_eq hc)
  refine ⟨hfr, hff, htr.trans hfr, ?_⟩
  obtain ⟨hdf, hks⟩ | ⟨hdf, hqs⟩ := hside
  · simp only [castleKs, Bool.and_eq_true] at hks
    have hright : ksRight g g.toMove = true := hks.1.1.1.1.1.1.1
    have htf : m.tf = 6 := by omega
    have hrook : sideBoard g m = (g.board.set m.fr 5 (g.board m.fr 7)).clear m.fr 7 := by
      rw [sideBoard, epCapture, if_neg hnp, castleRook, if_pos ⟨hc.1, hdf⟩]
    refine Or.inl ⟨htf, hright, ?_⟩
    funext x y
    rw [after_apply, hking, hrook, htr, hfr, hff, htf, hr.ksRook _ hright]
    simp only [castledBoard, Board.clear, Board.set]
    split_ifs <;> first | rfl | omega
  · simp only [castleQs, Bool.and_eq_true] at hqs
    have hright : qsRight g g.toMove = true := hqs.1.1.1.1.1.1.1.1
    have htf : m.tf = 2 := by omega
    have hrook : sideBoard g m = (g.board.set m.fr 3 (g.board m.fr 0)).clear m.fr 0 := by
      rw [sideBoard, epCapture, if_neg hnp, castleRook, if_neg fun h2 => absurd h2.2 (by omega),
        if_pos ⟨hc.1, hdf⟩]
    refine Or.inr ⟨htf, hright, ?_⟩
    funext x y
    rw [after_apply, hking, hrook, htr, hfr, hff, htf, hr.qsRook _ hright]
    simp only [castledBoard, Board.clear, Board.set]
    split_ifs <;> first | rfl | omega

end Accepted

theorem ttChessInit_rights : CastlingRights ttChessInit := by
  have hk (c : TTColor) : ∀ q ∈ squares, ttChessInit.board q.1 q.2 = ⟨.king, c⟩ →
      q = (homeRank c, 4) := by
    cases c <;> decide +kernel
  refine ⟨fun c _ => ?_, fun c _ => ?_, fun c _ q hq => hk c q (mem_squares.mpr hq.1) hq.2⟩
  · cases c <;> decide +kernel
  · cases c <;> decide +kernel

theorem playMove_rights (hr : CastlingRights g) : CastlingRights (playMove g m) := by
  obtain ⟨-, he⟩ | ⟨-, h, st, w, he⟩ := playMove_cases g m
  · rw [he]
    exact hr
  · rw [he]
    exact h.rights_kept hr

theorem play_rights (ms : List Move) (hr : CastlingRights g) : CastlingRights (play g ms) := by
  induction ms generalizing g with
  | nil => exact hr
  | cons m ms ih => exact ih (playMove_rights hr)

theorem playMove_board (hm : moveAccepted g m = true) :
    Accepted g m ∧ (playMove g m).board = after g m := by
  obtain ⟨hn, -⟩ | ⟨-, h, st, w, he⟩ := playMove_cases g m
  · rw [hn] at hm
    cases hm
  · rw [he]
    exact ⟨h, rfl⟩

theorem castling_rights (ms : List Move) :
    CastlingRights (play ttChessInit ms) ∧
      ∀ m, moveAccepted (play ttChessInit ms) m = true → isCastling (play ttChessInit ms) m →
        let g := play ttChessInit ms
        g.board (homeRank g.toMove) 4 = ⟨.king, g.toMove⟩ ∧
          m.fr = homeRank g.toMove ∧ m.ff = 4 ∧ m.tr = homeRank g.toMove ∧
          ((m.tf = 6 ∧ g.board (homeRank g.toMove) 7 = ⟨.rook, g.toMove⟩ ∧
              (playMove g m).board = castledBoard g.board g.toMove 6 5 7) ∨
            (m.tf = 2 ∧ g.board (homeRank g.toMove) 0 = ⟨.rook, g.toMove⟩ ∧
              (playMove g m).board = castledBoard g.board g.toMove 2 3 0)) := by
  have hr := play_rights ms ttChessInit_rights
  refine ⟨hr, fun m hm hc => ?_⟩
  obtain ⟨h, hb⟩ := playMove_board hm
  obtain ⟨hfr, hff, htr, hside⟩ := h.castled hr hc
  dsimp only
  rw [hb]
  have hking := h.piece_eq hc
  rw [hfr, hff] at hking
  refine ⟨hking, hfr, hff, htr, ?_⟩
  obtain ⟨htf, hright, ha⟩ | ⟨htf, hright, ha⟩ := hside
  · exact Or.inl ⟨htf, hr.ksRook _ hright, ha⟩
  · exact Or.inr ⟨htf, hr.qsRook _ hright, ha⟩

namespace Instance

def italianGame : List Move :=
  [⟨1, 4, 3, 4⟩, ⟨6, 4, 4, 4⟩, ⟨0, 6, 2, 5⟩, ⟨7, 1, 5, 2⟩, ⟨0, 5, 3, 2⟩, ⟨7, 5, 4, 2⟩]

theorem castling_rights_italian :
    (play ttChessInit italianGame).board 0 7 = ⟨.rook, .white⟩ ∧
      (playMove (play ttChessInit italianGame) ⟨0, 4, 0, 6⟩).board =
        castledBoard (play ttChessInit italianGame).board .white 6 5 7 := by
  have hw : (play ttChessInit italianGame).toMove = .white := by decide +kernel
  have h := (castling_rights italianGame).2 ⟨0, 4, 0, 6⟩ (by decide +kernel)
    ⟨by decide +kernel, Or.inl rfl⟩
  dsimp only at h
  rw [hw] at h
  obtain ⟨-, -, -, -, ⟨-, hrook, hb⟩ | ⟨htf, -⟩⟩ := h
  · exact ⟨hrook, hb⟩
  · cases htf

end Instance

end TkTox.Chess
