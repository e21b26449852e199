import Mathlib.Algebra.Order.Group.Multiset
import Mathlib.Tactic.Abel
import TkTox.ChessRights

/-!
Piece accounting. The board is written square by square, up to four squares for one move; each
write trades the square's occupant for another, and adding the writes up gives what a move does to
the pieces on the board. The en passant marker is one file number; what it stands for is the pawn
that has just made its double step.
-/

namespace TkTox.Chess

variable {g : TTChess} {m : Move} {b : Board} {p t : TTPiece} {r f fr ff tr tf : ℤ}

def occupant (p : TTPiece) : Multiset TTPiece := if p.type = .none then 0 else {p}

def pieces (b : Board) : Multiset TTPiece := (squares.map fun q => occupant (b q.1 q.2)).sum

def lastRank (c : TTColor) : ℤ := homeRank c.other

def promotes (g : TTChess) (m : Move) : Prop :=
  (g.board m.fr m.ff).type = .pawn ∧ m.tr = lastRank g.toMove

instance promotesDecidable : Decidable (promotes g m) := inferInstanceAs (Decidable (_ ∧ _))

def captured (g : TTChess) (m : Move) : Multiset TTPiece :=
  if (g.board m.fr m.ff).type = .pawn ∧ m.tf - m.ff ≠ 0 ∧ (g.board m.tr m.tf).type = .none then
    occupant (g.board m.fr m.tf)
  else occupant (g.board m.tr m.tf)

@[simp] theorem occupant_empty : occupant emptyPiece = 0 := rfl

theorem occupant_none (h : p.type = .none) : occupant p = 0 := if_pos h

theorem occupant_some (h : p.type ≠ .none) : occupant p = {p} := if_neg h

theorem sum_write {ι M : Type*} [DecidableEq ι] [AddCommMonoid M] {l : List ι} {u v : ι → M} {a : ι}
    (hl : l.Nodup) (ha : a ∈ l) (h : ∀ i, i ≠ a → v i = u i) :
    (l.map v).sum + u a = (l.map u).sum + v a := by
  induction l with
  | nil => cases ha
  | cons i l ih =>
    rw [List.nodup_cons] at hl
    by_cases hi : i = a
    · subst hi
      have hrest : l.map v = l.map u := by
        apply List.map_congr_left
        intro j hj
        exact h j fun e => hl.1 (e ▸ hj)
      rw [List.map_cons, List.map_cons, List.sum_cons, List.sum_cons, hrest, add_right_comm,
        add_comm (v i), add_right_comm]
    · have hmem : a ∈ l := (List.mem_cons.mp ha).resolve_left (Ne.symm hi)
      rw [List.map_cons, List.map_cons, List.sum_cons, List.sum_cons, h i hi, add_assoc, ih hl.2 hmem,
        add_assoc]

theorem squares_nodup : squares.Nodup := by
  decide +kernel

theorem pieces_set (hin : inBounds r f = true) :
    pieces (b.set r f p) + occupant (b r f) = pieces b + occupant p := by
  have h := sum_write (u := fun q : ℤ × ℤ => occupant (b q.1 q.2))
    (v := fun q : ℤ × ℤ => occupant (b.set r f p q.1 q.2)) squares_nodup
    (mem_squares (q := (r, f)).mpr hin) (fun q hq => by
      rw [Board.set, if_neg fun h => hq (Prod.ext h.1 h.2)])
  dsimp only at h
  rw [Board.set, if_pos ⟨rfl, rfl⟩] at h
  exact h

theorem pieces_clear (hin : inBounds r f = true) : pieces (b.clear r f) + occupant (b r f) = pieces b := by
  have h := pieces_set (b := b) (p := emptyPiece) hin
  rwa [occupant_empty, add_zero] at h

theorem pieces_moved (fr ff tr tf : ℤ) (hfrom : inBounds fr ff = true) (hto : inBounds tr tf = true)
    (hne : ¬ (tr = fr ∧ tf = ff)) :
    pieces ((b.set tr tf p).clear fr ff) + occupant (b fr ff) + occupant (b tr tf) =
      pieces b + occupant p := by
  have h1 := pieces_clear (b := b.set tr tf p) hfrom
  have hsrc : b.set tr tf p fr ff = b fr ff := by
    rw [Board.set, if_neg fun h => hne ⟨h.1.symm, h.2.symm⟩]
  rw [hsrc] at h1
  rw [h1]
  exact pieces_set hto

def EpMarker (g : TTChess) : Prop :=
  0 ≤ g.epFile → g.epFile < 8 ∧
    g.board (epRank g.toMove - pawnDir g.toMove) g.epFile = ⟨.pawn, g.toMove.other⟩ ∧
    (g.board (epRank g.toMove) g.epFile).type = .none ∧
    (g.board (epRank g.toMove + pawnDir g.toMove) g.epFile).type = .none

theorem pawnStart_add (c : TTColor) : pawnStart c + pawnDir c = epRank c.other ∧
    pawnStart c = epRank c.other + pawnDir c.other := by
  cases c <;> decide

theorem pawnDir_ne (c : TTColor) : pawnDir c ≠ 0 := by
  cases c <;> decide

namespace Accepted

theorem double_push (h : Accepted g m) (hp : (g.board m.fr m.ff).type = .pawn)
    (hdr : m.tr - m.fr = 2 * pawnDir g.toMove) :
    m.tf = m.ff ∧ m.fr = pawnStart g.toMove ∧
      (g.board (m.fr + pawnDir g.toMove) m.ff).type = .none := by
  have hl := h.legal
  have hd := pawnDir_ne g.toMove
  have hnd : ¬ 2 * pawnDir g.toMove = pawnDir g.toMove := by omega
  simp only [pseudoLegal, hp, pawnLegal, h.turn, hdr] at hl
  split_ifs at hl with h1 h2
  · simp only [Bool.and_eq_true, beq_iff_eq, true_and] at hl
    exact ⟨by omega, hl.1, hl.2⟩
  · simp only [Bool.and_eq_true, beq_iff_eq] at hl
    exact absurd hl.1 hnd

theorem ep_marked (h : Accepted g m) (hp : (g.board m.fr m.ff).type = .pawn)
    (hdr : m.tr - m.fr = 2 * pawnDir g.toMove) :
    (after g m (epRank g.toMove.other) m.ff).type = .none ∧
      (after g m (epRank g.toMove.other + pawnDir g.toMove.other) m.ff).type = .none := by
  obtain ⟨htf, hfr, hmid⟩ := h.double_push hp hdr
  obtain ⟨hrank, hback⟩ := pawnStart_add g.toMove
  have hd := pawnDir_ne g.toMove
  have hnc : ¬ isCastling g m := fun hc => by
    have hk := hc.1
    rw [hp] at hk
    cases hk
  have hside : sideBoard g m = g.board := by
    have hcastle : castleRook g.board (g.board m.fr m.ff) m.fr (m.tf - m.ff) = g.board := by
      rw [castleRook, if_neg fun h2 => hnc ⟨h2.1, Or.inl h2.2⟩,
        if_neg fun h2 => hnc ⟨h2.1, Or.inr h2.2⟩]
    rw [sideBoard, hcastle, epCapture, if_neg fun h2 => h2.2.1 (by omega)]
  constructor
  · rw [← hrank, ← hfr, after_apply, if_neg (by omega), if_neg (by omega), hside]
    exact hmid
  · rw [← hback, ← hfr, after_apply, if_pos ⟨rfl, rfl⟩]
    rfl

theorem marker_kept (h : Accepted g m) {st : TTChessStatus} {w : TTColor} :
    EpMarker { moveMade g (g.board m.fr m.ff) (g.board m.tr m.tf) m.fr m.ff m.tr m.tf with
      status := st, winner := w } := by
  intro h0
  simp only [moveMade] at h0 ⊢
  split_ifs at h0 ⊢ with hd
  · obtain ⟨hf1, hf2⟩ := hd
    have hpawn := h.ep_kept ⟨hf1, hf2⟩
    rw [h.turn] at hf2
    obtain ⟨hmid, hback⟩ := h.ep_marked hf1 hf2
    have hsrc := inBounds_iff.mp h.source
    exact ⟨hsrc.2.2.2, hpawn, hmid, hback⟩
  · exact absurd h0 (by decide)

theorem victim (h : Accepted g m) (he : EpMarker g) (hp : (g.board m.fr m.ff).type = .pawn)
    (hdf : m.tf - m.ff ≠ 0) (ht : (g.board m.tr m.tf).type = .none) :
    g.board m.fr m.tf = ⟨.pawn, g.toMove.other⟩ := by
  obtain ⟨hfr, -, htf⟩ := h.ep_squares hp hdf ht
  have htgt := inBounds_iff.mp h.target
  rw [hfr, htf]
  rw [htf] at htgt
  exact (he htgt.2.2.1).2.1

theorem pawn_rank (h : Accepted g m) (hp : (g.board m.fr m.ff).type = .pawn)
    (hlast : m.tr = 0 ∨ m.tr = 7) : m.tr = lastRank g.toMove := by
  have hl := h.legal
  have hsrc := inBounds_iff.mp h.source
  have hdr : m.tr - m.fr = pawnDir g.toMove ∨ m.tr - m.fr = 2 * pawnDir g.toMove := by
    simp only [pseudoLegal, hp, pawnLegal, h.turn] at hl
    split_ifs at hl with h1 h2 h3
    · exact Or.inl h2
    · simp only [Bool.and_eq_true, beq_iff_eq] at hl
      exact Or.inr hl.1.1
    · simp only [Bool.and_eq_true, beq_iff_eq] at hl
      exact Or.inl hl.1
  revert hdr
  cases g.toMove <;> simp only [pawnDir, lastRank, homeRank, TTColor.other, reduceCtorEq, if_true,
    if_false] <;> omega

theorem promoted_eq (h : Accepted g m) : promoted (g.board m.fr m.ff) m.tr =
    if promotes g m then ⟨.queen, g.toMove⟩ else g.board m.fr m.ff := by
  by_cases hp : promotes g m
  · rw [if_pos hp, promoted, if_pos ⟨hp.1, hp.2 ▸ homeRank_eq⟩, h.turn]
  · rw [if_neg hp, promoted, if_neg fun h1 => hp ⟨h1.1, h.pawn_rank h1.1 h1.2⟩]

theorem pieces_sideBoard (h : Accepted g m) (hr : CastlingRights g) :
    sideBoard g m m.fr m.ff = g.board m.fr m.ff ∧ sideBoard g m m.tr m.tf = g.board m.tr m.tf ∧
      pieces (sideBoard g m) + captured g m = pieces g.board + occupant (g.board m.tr m.tf) := by
  have hsrc := inBounds_iff.mp h.source
  by_cases hc : isCastling g m
  · have hnp : ¬ ((g.board m.fr m.ff).type = .pawn ∧ m.tf - m.ff ≠ 0 ∧
        (g.board m.tr m.tf).type = .none) := by
      rw [hc.1]
      simp
    have hff := (h.castle_kings hr.kings hc).2
    rw [captured, if_neg hnp]
    obtain ⟨htr, ⟨hdf, hks⟩ | ⟨hdf, hqs⟩⟩ := h.castle_legal hc
    · have hside : sideBoard g m = (g.board.set m.fr 5 (g.board m.fr 7)).clear m.fr 7 := by
        rw [sideBoard, epCapture, if_neg hnp, castleRook, if_pos ⟨hc.1, hdf⟩]
      simp only [castleKs, Bool.and_eq_true, beq_iff_eq] at hks
      have hfree : occupant (g.board m.fr 5) = 0 := occupant_none hks.1.1.1.1.1.1.2
      have hmoved := pieces_moved (b := g.board) (p := g.board m.fr 7) m.fr 7
        m.fr 5 (inBounds_iff.mpr (by omega)) (inBounds_iff.mpr (by omega)) (by omega)
      rw [hfree, add_zero, add_left_inj] at hmoved
      rw [hside, hmoved]
      refine ⟨?_, ?_, rfl⟩
      · rw [Board.clear, Board.set, if_neg (by omega), Board.set, if_neg (by omega)]
      · rw [Board.clear, Board.set, if_neg (by omega), Board.set, if_neg (by omega)]
    · have hside : sideBoard g m = (g.board.set m.fr 3 (g.board m.fr 0)).clear m.fr 0 := by
        rw [sideBoard, epCapture, if_neg hnp, castleRook, if_neg fun h2 => absurd h2.2 (by omega),
          if_pos ⟨hc.1, hdf⟩]
      simp only [castleQs, Bool.and_eq_true, beq_iff_eq] at hqs
      have hfree : occupant (g.board m.fr 3) = 0 := occupant_none hqs.1.1.1.1.1.2
      have hmoved := pieces_moved (b := g.board) (p := g.board m.fr 0) m.fr 0
        m.fr 3 (inBounds_iff.mpr (by omega)) (inBounds_iff.mpr (by omega)) (by omega)
      rw [hfree, add_zero, add_left_inj] at hmoved
      rw [hside, hmoved]
      refine ⟨?_, ?_, rfl⟩
      · rw [Board.clear, Board.set, if_neg (by omega), Board.set, if_neg (by omega)]
      · rw [Board.clear, Board.set, if_neg (by omega), Board.set, if_neg (by omega)]
  · have hrook : castleRook g.board (g.board m.fr m.ff) m.fr (m.tf - m.ff) = g.board := by
      rw [castleRook, if_neg fun h2 => hc ⟨h2.1, Or.inl h2.2⟩, if_neg fun h2 => hc ⟨h2.1, Or.inr h2.2⟩]
    rw [sideBoard, hrook, epCapture, captured]
    split_ifs with hep
    · have htgt := inBounds_iff.mp h.target
      obtain ⟨hfr, htr, -⟩ := h.ep_squares hep.1 hep.2.1 hep.2.2
      have hd := pawnDir_ne g.toMove
      rw [pieces_clear (inBounds_iff.mpr (by omega)), occupant_none hep.2.2, add_zero]
      refine ⟨?_, ?_, rfl⟩
      · rw [Board.clear, Board.set, if_neg fun h2 => hep.2.1 (by omega)]
      · rw [Board.clear, Board.set, if_neg (by omega)]
    · exact ⟨rfl, rfl, rfl⟩

theorem pieces_after (h : Accepted g m) (hr : CastlingRights g) :
    pieces (after g m) + captured g m + occupant (g.board m.fr m.ff) =
      pieces g.board + occupant (promoted (g.board m.fr m.ff) m.tr) := by
  obtain ⟨hsrc, htgt, hside⟩ := h.pieces_sideBoard hr
  have hmoved := pieces_moved (b := sideBoard g m) (p := promoted (g.board m.fr m.ff) m.tr) _ _ _ _ h.source
    h.target h.ne_source
  rw [hsrc, htgt] at hmoved
  have hafter : after g m =
      ((sideBoard g m).set m.tr m.tf (promoted (g.board m.fr m.ff) m.tr)).clear m.fr m.ff := rfl
  rw [← hafter] at hmoved
  apply add_right_cancel (b := occupant (g.board m.tr m.tf))
  calc pieces (after g m) + captured g m + occupant (g.board m.fr m.ff) + occupant (g.board m.tr m.tf)
      = pieces (after g m) + occupant (g.board m.fr m.ff) + occupant (g.board m.tr m.tf) +
          captured g m := by abel
    _ = pieces (sideBoard g m) + captured g m + occupant (promoted (g.board m.fr m.ff) m.tr) := by
        rw [hmoved]
        abel
    _ = pieces g.board + occupant (promoted (g.board m.fr m.ff) m.tr) +
          occupant (g.board m.tr m.tf) := by
        rw [hside]
        abel

theorem captured_enemy (h : Accepted g m) (he : EpMarker g) :
    (captured g m).card ≤ 1 ∧ ∀ p ∈ captured g m, p.color = g.toMove.other := by
  unfold captured
  split_ifs with hep
  · rw [h.victim he hep.1 hep.2.1 hep.2.2, occupant_some (by simp)]
    simp
  · by_cases ht : (g.board m.tr m.tf).type = .none
    · rw [occupant_none ht]
      simp
    · rw [occupant_some ht]
      have hcol := (g.toMove.eq_or_eq_other _).resolve_left (h.notOwn ht)
      simpa using hcol

theorem ep_board (h : Accepted g m) (hp : (g.board m.fr m.ff).type = .pawn)
    (hdf : m.tf - m.ff ≠ 0) (ht : (g.board m.tr m.tf).type = .none) :
    after g m = (((g.board.clear m.fr m.tf).set m.tr m.tf ⟨.pawn, g.toMove⟩).clear m.fr m.ff) := by
  have hside : sideBoard g m = g.board.clear m.fr m.tf := by
    rw [sideBoard, epCapture, if_pos ⟨hp, hdf, ht⟩, castleRook, if_neg (by simp [hp]),
      if_neg (by simp [hp])]
  have hprom : promoted (g.board m.fr m.ff) m.tr = ⟨.pawn, g.toMove⟩ := by
    have hlast : ¬ (m.tr = 0 ∨ m.tr = 7) := by
      rw [(h.ep_squares hp hdf ht).2.1]
      cases g.toMove <;> decide
    rw [promoted, if_neg fun h2 => hlast h2.2, ← hp, ← h.turn]
  funext x y
  rw [after_apply, hprom, hside]
  rfl

end Accepted

theorem playMove_marker (he : EpMarker g) : EpMarker (playMove g m) := by
  obtain ⟨-, hg⟩ | ⟨-, h, st, w, hg⟩ := playMove_cases g m
  · rw [hg]
    exact he
  · rw [hg]
    exact h.marker_kept

theorem play_marker (ms : List Move) (he : EpMarker g) : EpMarker (play g ms) := by
  induction ms generalizing g with
  | nil => exact he
  | cons m ms ih => exact ih (playMove_marker he)

theorem ttChessInit_marker : EpMarker ttChessInit := fun h => absurd h (by decide)

theorem en_passant_and_pieces (ms : List Move) :
    let g := play ttChessInit ms
    EpMarker g ∧ ∀ m, moveAccepted g m = true →
      ((g.board m.fr m.ff).type = .pawn → m.tf ≠ m.ff → (g.board m.tr m.tf).type = .none →
        0 ≤ g.epFile ∧ m.tf = g.epFile ∧ m.fr = epRank g.toMove - pawnDir g.toMove ∧
          g.board m.fr m.tf = ⟨.pawn, g.toMove.other⟩ ∧
          (playMove g m).board =
            ((g.board.clear m.fr m.tf).set m.tr m.tf ⟨.pawn, g.toMove⟩).clear m.fr m.ff) ∧
      (captured g m).card ≤ 1 ∧ (∀ p ∈ captured g m, p.color = g.toMove.other) ∧
      (¬ promotes g m → pieces (playMove g m).board + captured g m = pieces g.board) ∧
      (promotes g m → pieces (playMove g m).board + captured g m + {⟨.pawn, g.toMove⟩} =
        pieces g.board + {⟨.queen, g.toMove⟩}) := by
  have hr := play_rights ms ttChessInit_rights
  have he := play_marker ms ttChessInit_marker
  refine ⟨he, fun m hm => ?_⟩
  obtain ⟨h, hb⟩ := playMove_board hm
  rw [hb]
  have hacc := h.pieces_after hr
  obtain ⟨hcard, hcol⟩ := h.captured_enemy he
  refine ⟨fun hp hdf ht => ?_, hcard, hcol, fun hn => ?_, fun hn => ?_⟩
  · have hne : m.tf - m.ff ≠ 0 := by omega
    obtain ⟨hfr, -, htf⟩ := h.ep_squares hp hne ht
    have htgt := inBounds_iff.mp h.target
    exact ⟨htf ▸ htgt.2.2.1, htf, hfr, h.victim he hp hne ht, h.ep_board hp hne ht⟩
  · rw [h.promoted_eq, if_neg hn] at hacc
    exact add_right_cancel hacc
  · have hpawn : (play ttChessInit ms).board m.fr m.ff = ⟨.pawn, (play ttChessInit ms).toMove⟩ := by
      rw [← hn.1, ← h.turn]
    rw [h.promoted_eq, if_pos hn, hpawn] at hacc
    exact hacc

namespace Instance

def epGame : List Move := [⟨1, 4, 3, 4⟩, ⟨6, 0, 5, 0⟩, ⟨3, 4, 4, 4⟩, ⟨6, 3, 4, 3⟩]

theorem en_passant_and_pieces_epGame :
    (play ttChessInit epGame).board 4 3 = ⟨.pawn, .black⟩ ∧
      pieces (playMove (play ttChessInit epGame) ⟨4, 4, 5, 3⟩).board + {⟨.pawn, .black⟩} =
        pieces (play ttChessInit epGame).board := by
  have hblack : (play ttChessInit epGame).toMove.other = .black := by decide +kernel
  have hcap : captured (play ttChessInit epGame) ⟨4, 4, 5, 3⟩ = {⟨.pawn, .black⟩} := by
    decide +kernel
  obtain ⟨hep, -, -, hkept, -⟩ := (en_passant_and_pieces epGame).2 ⟨4, 4, 5, 3⟩ (by decide +kernel)
  obtain ⟨-, -, -, hvictim, -⟩ := hep (by decide +kernel) (by decide) (by decide +kernel)
  rw [hblack] at hvictim
  rw [hcap] at hkept
  exact ⟨hvictim, hkept (by decide +kernel)⟩

end Instance

end TkTox.Chess
