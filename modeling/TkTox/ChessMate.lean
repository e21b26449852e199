import TkTox.ChessCapture
import TkTox.ChessPieces

/-!
Mate and stalemate. The generator tries a move by writing one piece over two squares; the move
test's own board differs from that after a castling and after an en passant capture. Castling never
decides anything, since the king could have taken the first step alone. An en passant capture does:
the generator leaves the captured pawn standing.
-/

namespace TkTox.Chess

variable {g : TTChess} {m : Move} {b b' : Board} {c attacker : TTColor} {type : TTPieceType}
  {d : ℤ × ℤ} {r f fr ff tr tf : ℤ} {k : ℕ}

structure Reply (g : TTChess) (c : TTColor) (fr ff tr tf : ℤ) : Prop where
  target : inBounds tr tf = true
  notOwn : (g.board tr tf).type ≠ .none → (g.board tr tf).color ≠ c
  escapes : moveLeavesSelfInCheck g.board fr ff tr tf = false

theorem leaperHasMove_iff {offsets : List (ℤ × ℤ)} : leaperHasMove g c fr ff offsets = true ↔
    ∃ tr tf, (tr - fr, tf - ff) ∈ offsets ∧ Reply g c fr ff tr tf := by
  simp only [leaperHasMove, List.any_eq_true, Bool.and_eq_true, Bool.not_eq_true',
    Bool.and_eq_false_iff, bne_eq_false_iff_eq, beq_eq_false_iff_ne]
  constructor
  · rintro ⟨d, hd, ⟨hin, hown⟩, hesc⟩
    refine ⟨fr + d.1, ff + d.2, by simpa using hd, hin, fun hne => ?_, hesc⟩
    exact hown.resolve_left hne
  · rintro ⟨tr, tf, hd, hin, hown, hesc⟩
    refine ⟨_, hd, ?_⟩
    simp only [add_sub_cancel]
    exact ⟨⟨hin, or_iff_not_imp_left.mpr hown⟩, hesc⟩

def Reaches (b : Board) (d : ℤ × ℤ) (r f : ℤ) (k : ℕ) : Prop :=
  (∀ j : ℕ, j ≤ k → inBounds (r + j * d.1) (f + j * d.2) = true) ∧
    ∀ j : ℕ, j < k → (b (r + j * d.1) (f + j * d.2)).type = .none

theorem reaches_zero : Reaches b d r f 0 ↔ inBounds r f = true := by
  constructor
  · intro h
    simpa using h.1 0 le_rfl
  · intro h
    refine ⟨fun j hj => ?_, fun j hj => absurd hj (Nat.not_lt_zero j)⟩
    rw [Nat.le_zero.mp hj]
    simpa using h

theorem step_cast (j : ℕ) (x s : ℤ) : x + ((j + 1 : ℕ) : ℤ) * s = x + s + j * s := by
  push_cast
  ring

theorem reaches_succ : Reaches b d r f (k + 1) ↔
    inBounds r f = true ∧ (b r f).type = .none ∧ Reaches b d (r + d.1) (f + d.2) k := by
  constructor
  · intro h
    refine ⟨by simpa using h.1 0 (by omega), by simpa using h.2 0 (by omega), fun j hj => ?_,
      fun j hj => ?_⟩
    · rw [← step_cast, ← step_cast]
      exact h.1 (j + 1) (by omega)
    · rw [← step_cast, ← step_cast]
      exact h.2 (j + 1) (by omega)
  · rintro ⟨h0, hf0, h⟩
    refine ⟨fun j hj => ?_, fun j hj => ?_⟩
    · cases j with
      | zero => simpa using h0
      | succ j =>
        rw [step_cast, step_cast]
        exact h.1 j (by omega)
    · cases j with
      | zero => simpa using hf0
      | succ j =>
        rw [step_cast, step_cast]
        exact h.2 j (by omega)

theorem sliderHasMove_iff (n : ℕ) : sliderHasMove g c fr ff d n r f = true ↔
    ∃ k < n, Reaches g.board d r f k ∧ Reply g c fr ff (r + k * d.1) (f + k * d.2) := by
  induction n generalizing r f with
  | zero => simp [sliderHasMove]
  | succ n ih =>
    have hsplit : (∃ k < n + 1, Reaches g.board d r f k ∧
          Reply g c fr ff (r + k * d.1) (f + k * d.2)) ↔
        (inBounds r f = true ∧ Reply g c fr ff r f) ∨
          (inBounds r f = true ∧ (g.board r f).type = .none ∧ ∃ k < n,
            Reaches g.board d (r + d.1) (f + d.2) k ∧
              Reply g c fr ff (r + d.1 + k * d.1) (f + d.2 + k * d.2)) := by
      constructor
      · rintro ⟨k, hk, hreach, hreply⟩
        cases k with
        | zero =>
          rw [reaches_zero] at hreach
          exact Or.inl ⟨hreach, by simpa using hreply⟩
        | succ k =>
          rw [reaches_succ] at hreach
          rw [step_cast, step_cast] at hreply
          exact Or.inr ⟨hreach.1, hreach.2.1, k, by omega, hreach.2.2, hreply⟩
      · rintro (⟨hin, hreply⟩ | ⟨hin, hfree, k, hk, hreach, hreply⟩)
        · exact ⟨0, by omega, reaches_zero.mpr hin, by simpa using hreply⟩
        · refine ⟨k + 1, by omega, reaches_succ.mpr ⟨hin, hfree, hreach⟩, ?_⟩
          rw [step_cast, step_cast]
          exact hreply
    rw [hsplit, sliderHasMove]
    dsimp only
    split_ifs with hin hown hesc hblock
    · -- a piece of the mover's own stops the ray
      refine iff_of_false (by simp) ?_
      rintro (⟨-, hreply⟩ | ⟨-, hfree, -⟩)
      · exact hreply.notOwn hown.1 hown.2
      · exact hown.1 hfree
    · refine iff_of_true rfl (Or.inl ⟨hin, hin, fun hne he => hown ⟨hne, he⟩, by simpa using hesc⟩)
    · refine iff_of_false (by simp) ?_
      rintro (⟨-, hreply⟩ | ⟨-, hfree, -⟩)
      · simp [hreply.escapes] at hesc
      · exact hblock hfree
    · rw [ih]
      constructor
      · intro h
        exact Or.inr ⟨hin, not_not.mp hblock, h⟩
      · rintro (⟨-, hreply⟩ | ⟨-, -, h⟩)
        · simp [hreply.escapes] at hesc
        · exact h
    · refine iff_of_false (by simp) ?_
      rintro (⟨h, -⟩ | ⟨h, -⟩)
      · exact hin h
      · exact hin h

theorem mem_sliderDirs : d ∈ sliderDirs type ↔ Slides type d := by
  cases type <;> simp [sliderDirs, Slides, or_comm]

theorem slideLegal_steps {p : TTPiece} (h : slideLegal g p fr ff tr tf = true)
    (hfrom : inBounds fr ff = true) (hto : inBounds tr tf = true) :
    ∃ d, Slides p.type d ∧ ∃ k < ttChessRanks, tr = fr + d.1 + k * d.1 ∧ tf = ff + d.2 + k * d.2 ∧
      Reaches g.board d (fr + d.1) (ff + d.2) k := by
  simp only [slideLegal, Bool.and_eq_true, Bool.or_eq_true, beq_iff_eq] at h
  obtain ⟨hshape, hclear⟩ := h
  have hspec : ∃ n : ℕ, tr - fr = (n + 1 : ℕ) * sign (tr - fr) ∧
      tf - ff = (n + 1 : ℕ) * sign (tf - ff) ∧ Slides p.type (sign (tr - fr), sign (tf - ff)) := by
    have hstraight (hs : straight (tr - fr) (tf - ff) = true)
        (ht : p.type = .rook ∨ p.type = .queen) : ∃ n : ℕ, tr - fr = (n + 1 : ℕ) * sign (tr - fr) ∧
        tf - ff = (n + 1 : ℕ) * sign (tf - ff) ∧ Slides p.type (sign (tr - fr), sign (tf - ff)) := by
      obtain ⟨n, h1, h2, hd⟩ := straight_spec hs
      exact ⟨n, h1, h2, Or.inl ⟨by simpa using neg_mem_dirs hd, ht⟩⟩
    have hdiag (hs : diag (tr - fr) (tf - ff) = true)
        (ht : p.type = .bishop ∨ p.type = .queen) : ∃ n : ℕ, tr - fr = (n + 1 : ℕ) * sign (tr - fr) ∧
        tf - ff = (n + 1 : ℕ) * sign (tf - ff) ∧ Slides p.type (sign (tr - fr), sign (tf - ff)) := by
      obtain ⟨n, h1, h2, hd⟩ := diag_spec hs
      exact ⟨n, h1, h2, Or.inr ⟨by simpa using neg_mem_ddirs hd, ht⟩⟩
    obtain (⟨ht, hs⟩ | ⟨ht, hs⟩) | ⟨ht, hs | hs⟩ := hshape
    · exact hstraight hs (Or.inl ht)
    · exact hdiag hs (Or.inl ht)
    · exact hstraight hs (Or.inr ht)
    · exact hdiag hs (Or.inr ht)
  obtain ⟨n, h1, h2, hd⟩ := hspec
  generalize sign (tr - fr) = s at h1 hclear hd
  generalize sign (tf - ff) = u at h2 hclear hd
  obtain ⟨hs, hu, hne⟩ := dir_cases (hd.imp And.left And.left)
  dsimp only at hs hu hne
  have hbounds := inBounds_iff.mp hfrom
  have hbounds' := inBounds_iff.mp hto
  have htr : tr = fr + s + n * s := by
    rw [Int.sub_eq_iff_eq_add'.mp h1]
    push_cast
    ring
  have htf : tf = ff + u + n * u := by
    rw [Int.sub_eq_iff_eq_add'.mp h2]
    push_cast
    ring
  have hn : n < ttChessRanks := by
    simp only [ttChessRanks]
    obtain rfl | rfl | rfl := hs <;> obtain rfl | rfl | rfl := hu <;> omega
  refine ⟨(s, u), hd, n, hn, htr, htf, fun j hj => ?_, ?_⟩
  · rw [inBounds_iff]
    obtain rfl | rfl | rfl := hs <;> obtain rfl | rfl | rfl := hu <;> omega
  · rw [htr, htf, pathClear_iff hne hn] at hclear
    exact hclear

theorem sliderHasMove_any {p : TTPiece} (hfrom : inBounds fr ff = true) :
    (sliderDirs p.type).any (fun d =>
        sliderHasMove g c fr ff d ttChessRanks (fr + d.1) (ff + d.2)) = true ↔
      ∃ tr tf, slideLegal g p fr ff tr tf = true ∧ Reply g c fr ff tr tf := by
  rw [List.any_eq_true]
  constructor
  · rintro ⟨d, hd, h⟩
    obtain ⟨k, hk, hreach, hreply⟩ := (sliderHasMove_iff _).mp h
    exact ⟨_, _, slideLegal_of_steps (mem_sliderDirs.mp hd) hk rfl rfl hreach.2, hreply⟩
  · rintro ⟨tr, tf, hl, hreply⟩
    obtain ⟨d, hd, k, hk, htr, htf, hreach⟩ := slideLegal_steps hl hfrom hreply.target
    refine ⟨d, mem_sliderDirs.mpr hd, (sliderHasMove_iff _).mpr ⟨k, hk, hreach, ?_⟩⟩
    rw [← htr, ← htf]
    exact hreply

theorem pawnStart_double (hr : fr = pawnStart c) (hf : inBounds fr ff = true) :
    inBounds (fr + 2 * pawnDir c) ff = true := by
  rw [inBounds_iff] at hf ⊢
  revert hr
  cases c <;> simp only [pawnStart, pawnDir, reduceCtorEq, if_true, if_false] <;> omega

theorem pawnHasMove_iff (hfrom : inBounds fr ff = true) : pawnHasMove g c fr ff = true ↔
    ∃ tr tf, pawnLegal g ⟨.pawn, c⟩ (g.board tr tf) fr ff tr tf = true ∧
      Reply g c fr ff tr tf := by
  have hd := pawnDir_ne c
  constructor
  · intro h
    simp only [pawnHasMove, Bool.or_eq_true, Bool.and_eq_true, beq_iff_eq, Bool.not_eq_true',
      List.any_eq_true] at h
    obtain ⟨⟨hin, hfree⟩, hesc | ⟨⟨hstart, hfree2⟩, hesc⟩⟩ | ⟨df, hdf, hin, hside⟩ := h
    · refine ⟨_, _, ?_, hin, fun hne => absurd hfree hne, hesc⟩
      simp [pawnLegal, hfree]
    · refine ⟨_, _, ?_, pawnStart_double hstart hfrom, fun hne => absurd hfree2 hne, hesc⟩
      simp only [pawnLegal]
      rw [if_pos ⟨by omega, hfree2⟩, if_neg (by omega)]
      simp only [Bool.and_eq_true, beq_iff_eq]
      exact ⟨⟨by omega, hstart⟩, hfree⟩
    · have hdf' : df = -1 ∨ df = 1 := by simpa using hdf
      have hdiff : ff + df - ff = 1 ∨ ff + df - ff = -1 := by omega
      have hnz : ¬ (ff + df - ff = 0 ∧ (g.board (fr + pawnDir c) (ff + df)).type = .none) := by omega
      split_ifs at hside with hcap hep
      · refine ⟨_, _, ?_, hin, fun _ => hcap.2, by simpa using hside⟩
        simp only [pawnLegal]
        rw [if_neg hnz, if_pos hdiff]
        simp [hcap.1]
      · refine ⟨_, _, ?_, hin, fun hne => absurd hep.1 hne, by simpa using hside⟩
        simp only [pawnLegal]
        rw [if_neg hnz, if_pos hdiff]
        simp only [Bool.and_eq_true, Bool.or_eq_true, beq_iff_eq]
        exact ⟨by omega, Or.inr ⟨hep.2.2, hep.2.1⟩⟩
  · rintro ⟨tr, tf, hl, hin, hown, hesc⟩
    simp only [pawnHasMove, Bool.or_eq_true, Bool.and_eq_true, beq_iff_eq, Bool.not_eq_true',
      List.any_eq_true]
    simp only [pawnLegal] at hl
    split_ifs at hl with h1 h2 h3
    · have htf : tf = ff := by omega
      have htr : tr = fr + pawnDir c := by omega
      subst htf htr
      exact Or.inl ⟨⟨hin, h1.2⟩, Or.inl hesc⟩
    · have htf : tf = ff := by omega
      simp only [Bool.and_eq_true, beq_iff_eq] at hl
      have htr : tr = fr + 2 * pawnDir c := by omega
      subst htf htr
      have hmid : inBounds (fr + pawnDir c) tf = true := by
        rw [inBounds_iff] at hin hfrom ⊢
        omega
      exact Or.inl ⟨⟨hmid, hl.2⟩, Or.inr ⟨⟨hl.1.2, h1.2⟩, hesc⟩⟩
    · simp only [Bool.and_eq_true, Bool.or_eq_true, beq_iff_eq, bne_iff_ne] at hl
      have htr : tr = fr + pawnDir c := by omega
      subst htr
      refine Or.inr ⟨tf - ff, by simp; omega, ?_⟩
      rw [add_sub_cancel]
      refine ⟨hin, ?_⟩
      by_cases hne : (g.board (fr + pawnDir c) tf).type = .none
      · have hep := hl.2.resolve_left (not_not.mpr hne)
        rw [if_neg fun h => h.1 hne, if_pos ⟨hne, hep.2, hep.1⟩]
        simpa using hesc
      · rw [if_pos ⟨hne, hown hne⟩]
        simpa using hesc

theorem kingLegal_step {p : TTPiece} {dr df : ℤ} :
    (kingLegal g p fr dr df = true ∧ ¬ (df = 2 ∨ df = -2)) ↔ (dr, df) ∈ ring := by
  rw [mem_ring, kingLegal]
  split_ifs with h1 h2 h3
  · exact iff_of_true ⟨rfl, by omega⟩ h1
  · exact iff_of_false (fun h => h.2 (Or.inl h2.2)) h1
  · exact iff_of_false (fun h => h.2 (Or.inr h3.2)) h1
  · exact iff_of_false (by simp) h1

structure Tried (g : TTChess) (m : Move) : Prop where
  accepted : Accepted g m
  notCastling : ¬ isCastling g m
  escapes : moveLeavesSelfInCheck g.board m.fr m.ff m.tr m.tf = false

theorem tried_iff {p : TTPiece} (hfrom : inBounds fr ff = true) (hp : g.board fr ff = p)
    (hne : p.type ≠ .none) (hc : p.color = g.toMove) : Tried g ⟨fr, ff, tr, tf⟩ ↔
      (pseudoLegal g p (g.board tr tf) fr ff tr tf = true ∧
        ¬ (p.type = .king ∧ (tf - ff = 2 ∨ tf - ff = -2))) ∧ Reply g g.toMove fr ff tr tf := by
  subst hp
  constructor
  · intro h
    exact ⟨⟨h.accepted.legal, h.notCastling⟩, h.accepted.target, h.accepted.notOwn, h.escapes⟩
  · rintro ⟨⟨hl, hk⟩, hreply⟩
    exact ⟨⟨hfrom, hreply.target, hne, hc, hreply.notOwn, hl⟩, hk, hreply.escapes⟩

theorem any_squares {f : ℤ × ℤ → Bool} {P : ℤ → ℤ → Prop}
    (hP : ∀ r c, P r c → inBounds r c = true)
    (hf : ∀ r c, inBounds r c = true → (f (r, c) = true ↔ P r c)) :
    squares.any f = true ↔ ∃ r c, P r c := by
  rw [List.any_eq_true]
  constructor
  · rintro ⟨q, hq, h⟩
    exact ⟨q.1, q.2, (hf _ _ (mem_squares.mp hq)).mp h⟩
  · rintro ⟨r, c, h⟩
    exact ⟨(r, c), mem_squares.mpr (hP r c h), (hf r c (hP r c h)).mpr h⟩

theorem ttChessHasLegalMove_iff :
    ttChessHasLegalMove g g.toMove = true ↔ ∃ m, Tried g m := by
  have hmove : (∃ m, Tried g m) ↔ ∃ fr ff tr tf, Tried g ⟨fr, ff, tr, tf⟩ :=
    ⟨fun ⟨m, h⟩ => ⟨m.fr, m.ff, m.tr, m.tf, h⟩, fun ⟨_, _, _, _, h⟩ => ⟨_, h⟩⟩
  rw [hmove, ttChessHasLegalMove]
  apply any_squares (P := fun fr ff => ∃ tr tf, Tried g ⟨fr, ff, tr, tf⟩)
  · rintro fr ff ⟨tr, tf, h⟩
    exact h.accepted.source
  intro fr ff hin
  dsimp only
  split_ifs with hskip
  · apply iff_of_false (by simp)
    rintro ⟨tr, tf, h⟩
    obtain hn | hn := hskip
    · exact h.accepted.piece hn
    · exact hn h.accepted.turn
  · obtain ⟨hne, hcol⟩ := not_or.mp hskip
    obtain ⟨type, color, hp⟩ : ∃ type color, g.board fr ff = ⟨type, color⟩ := ⟨_, _, rfl⟩
    rw [hp] at hne hcol ⊢
    obtain rfl : color = g.toMove := not_not.mp hcol
    simp only [tried_iff hin hp hne rfl]
    cases type with
    | none => exact absurd rfl hne
    | pawn => simpa [pseudoLegal] using pawnHasMove_iff hin
    | knight => simpa [pseudoLegal, knightLegal] using leaperHasMove_iff
    | king =>
      simp only [pseudoLegal, true_and, kingLegal_step]
      exact leaperHasMove_iff
    | rook => simpa [pseudoLegal] using sliderHasMove_any (p := ⟨.rook, g.toMove⟩) hin
    | bishop => simpa [pseudoLegal] using sliderHasMove_any (p := ⟨.bishop, g.toMove⟩) hin
    | queen => simpa [pseudoLegal] using sliderHasMove_any (p := ⟨.queen, g.toMove⟩) hin

/-! ### Castling decides nothing -/

theorem movedBoard_apply (x y : ℤ) : movedBoard b fr ff tr tf x y =
    if x = fr ∧ y = ff then emptyPiece else if x = tr ∧ y = tf then b fr ff else b x y := rfl

-- A king that steps along its rank onto a free square meets the attacks on that square, or the ones
-- it shielded the square from.
theorem step_attacked {s : ℤ} (hs : s = 1 ∨ s = -1) (hk : (b r f).color ≠ attacker)
    (hfree : (b r (f + s)).type = .none)
    (h : ttChessSquareAttacked (movedBoard b r f r (f + s)) r (f + s) attacker = true) :
    ttChessSquareAttacked b r (f + s) attacker = true ∨ ttChessSquareAttacked b r f attacker = true := by
  have hsame (x y : ℤ) (hx : ¬ (x = r ∧ y = f)) (hx' : ¬ (x = r ∧ y = f + s)) :
      movedBoard b r f r (f + s) x y = b x y := by
    rw [movedBoard_apply, if_neg hx, if_neg hx']
  have hseen {x y : ℤ} {type : TTPieceType} (hne : type ≠ .none)
      (hp : movedBoard b r f r (f + s) x y = ⟨type, attacker⟩) : b x y = ⟨type, attacker⟩ := by
    rw [movedBoard_apply] at hp
    split_ifs at hp with h1 h2
    · injection hp with hp1
      exact absurd hp1.symm hne
    · rw [hp] at hk
      exact absurd rfl hk
    · exact hp
  have hray {type : TTPieceType} {d : ℤ × ℤ} {k : ℕ} (hne : type ≠ .none) (hd : d ∈ dirs ∨ d ∈ ddirs)
      (hh : Hits (movedBoard b r f r (f + s)) attacker type d (r + d.1) (f + s + d.2) k) :
      Hits b attacker type d (r + d.1) (f + s + d.2) k ∨
        ∃ k, Hits b attacker type d (r + d.1) (f + d.2) k := by
    obtain ⟨h1, h2, h0⟩ := dir_cases hd
    by_cases hback : d.1 = 0 ∧ d.2 = -s
    · -- the ray runs back over the square the king has left
      right
      cases k with
      | zero =>
        obtain ⟨-, hp⟩ := hits_zero.mp hh
        have hsrc : movedBoard b r f r (f + s) (r + d.1) (f + s + d.2) = emptyPiece := by
          rw [movedBoard_apply, if_pos (by omega)]
        rw [hsrc] at hp
        obtain hp | hp := hp
        · injection hp with hp1
          exact absurd hp1.symm hne
        · cases hp
      | succ k =>
        obtain ⟨-, -, hh⟩ := (hits_succ k).mp hh
        refine ⟨k, ?_⟩
        have hr : r + d.1 + d.1 = r + d.1 := by omega
        have hf : f + s + d.2 + d.2 = f + d.2 := by omega
        rw [hr, hf] at hh
        refine hh.congr fun j _ => Or.inl (hsame _ _ ?_ ?_).symm
        · rw [hback.2]
          obtain rfl | rfl := hs <;> omega
        · rw [hback.2]
          obtain rfl | rfl := hs <;> omega
    · left
      refine hh.congr fun j _ => Or.inl (hsame _ _ ?_ ?_).symm
      · obtain e1 | e1 | e1 := h1 <;> obtain e2 | e2 | e2 := h2 <;> rw [e1, e2] <;> omega
      · obtain e1 | e1 | e1 := h1 <;> obtain e2 | e2 | e2 := h2 <;> rw [e1, e2] <;> omega
  rw [ttChessSquareAttacked_iff] at h
  simp only [ttChessSquareAttacked_iff]
  obtain ⟨q, hin, ⟨h1, h2, hp⟩ | ⟨hm, hp⟩ | ⟨hm, hp⟩⟩ | ⟨d, k, ⟨hd, hh⟩ | ⟨hd, hh⟩⟩ := h
  · exact Or.inl (Or.inl ⟨q, hin, Or.inl ⟨h1, h2, hseen (by simp) hp⟩⟩)
  · exact Or.inl (Or.inl ⟨q, hin, Or.inr (Or.inl ⟨hm, hseen (by simp) hp⟩)⟩)
  · exact Or.inl (Or.inl ⟨q, hin, Or.inr (Or.inr ⟨hm, hseen (by simp) hp⟩)⟩)
  · obtain hh | ⟨k, hh⟩ := hray (by simp) (Or.inl hd) hh
    · exact Or.inl (Or.inr ⟨d, _, Or.inl ⟨hd, hh⟩⟩)
    · exact Or.inr (Or.inr ⟨d, k, Or.inl ⟨hd, hh⟩⟩)
  · obtain hh | ⟨k, hh⟩ := hray (by simp) (Or.inr hd) hh
    · exact Or.inl (Or.inr ⟨d, _, Or.inr ⟨hd, hh⟩⟩)
    · exact Or.inr (Or.inr ⟨d, k, Or.inr ⟨hd, hh⟩⟩)

theorem king_step {s : ℤ} (hs : s = 1 ∨ s = -1)
    (hking : g.board (homeRank g.toMove) 4 = ⟨.king, g.toMove⟩) (hhome : KingsHome g g.toMove)
    (hfree : (g.board (homeRank g.toMove) (4 + s)).type = .none)
    (hat : ttChessSquareAttacked g.board (homeRank g.toMove) 4 g.toMove.other = false)
    (hat' : ttChessSquareAttacked g.board (homeRank g.toMove) (4 + s) g.toMove.other = false) :
    Tried g ⟨homeRank g.toMove, 4, homeRank g.toMove, 4 + s⟩ := by
  have hin (f : ℤ) (hf : 0 ≤ f ∧ f < 8) : inBounds (homeRank g.toMove) f = true := by
    rw [inBounds_iff]
    obtain e | e := homeRank_eq (c := g.toMove) <;> omega
  have hfrom := hin 4 (by omega)
  have hto := hin (4 + s) (by omega)
  apply (tried_iff hfrom hking (by simp) rfl).mpr
  refine ⟨⟨?_, ?_⟩, hto, fun hne => absurd hfree hne, ?_⟩
  · simp only [pseudoLegal, kingLegal]
    rw [if_pos (by omega)]
  · rintro ⟨-, h⟩
    omega
  · have hcol : (movedBoard g.board (homeRank g.toMove) 4 (homeRank g.toMove) (4 + s)
        (homeRank g.toMove) (4 + s)) = ⟨.king, g.toMove⟩ := by
      rw [movedBoard_apply, if_neg (by omega), if_pos ⟨rfl, rfl⟩, hking]
    have hmoved : IsKing (movedBoard g.board (homeRank g.toMove) 4 (homeRank g.toMove) (4 + s))
        g.toMove (homeRank g.toMove, 4 + s) := ⟨hto, hcol⟩
    have hunique : ∃! q, IsKing (movedBoard g.board (homeRank g.toMove) 4 (homeRank g.toMove) (4 + s))
        g.toMove q := by
      refine ⟨_, hmoved, fun q hq => ?_⟩
      have hb := hq.2
      rw [movedBoard_apply] at hb
      split_ifs at hb with h1 h2
      · cases hb
      · exact Prod.ext h2.1 h2.2
      · have hold := hhome q ⟨hq.1, hb⟩
        exact absurd (Prod.mk.inj hold) h1
    rw [moveLeavesSelfInCheck, hcol, ttChessInCheck_of_king hunique hmoved, Bool.eq_false_iff]
    intro h
    obtain h | h := step_attacked hs (by rw [hking]; exact g.toMove.other_ne.symm) hfree h
    · rw [hat'] at h
      cases h
    · rw [hat] at h
      cases h

def isEnPassant (g : TTChess) (m : Move) : Prop :=
  (g.board m.fr m.ff).type = .pawn ∧ m.tf ≠ m.ff ∧ (g.board m.tr m.tf).type = .none

theorem Accepted.castle_step (h : Accepted g m) (hr : CastlingRights g) (hc : isCastling g m) :
    ∃ m', Tried g m' ∧ ¬ isEnPassant g m' := by
  obtain ⟨hfr, hff⟩ := h.castle_kings hr.kings hc
  have hking := h.piece_eq hc
  rw [hfr, hff] at hking
  have hnp (s : ℤ) : ¬ isEnPassant g ⟨homeRank g.toMove, 4, homeRank g.toMove, 4 + s⟩ := by
    rintro ⟨hp, -⟩
    rw [hking] at hp
    cases hp
  obtain ⟨-, ⟨hdf, hks⟩ | ⟨hdf, hqs⟩⟩ := h.castle_legal hc
  · simp only [castleKs, Bool.and_eq_true, beq_iff_eq, Bool.not_eq_true'] at hks
    rw [hfr] at hks
    obtain ⟨⟨⟨⟨⟨⟨⟨hright, h5⟩, -⟩, -⟩, -⟩, ha4⟩, ha5⟩, -⟩ := hks
    exact ⟨_, king_step (s := 1) (Or.inl rfl) hking (hr.kings _ (Or.inl hright)) h5 ha4 ha5, hnp 1⟩
  · simp only [castleQs, Bool.and_eq_true, beq_iff_eq, Bool.not_eq_true'] at hqs
    rw [hfr] at hqs
    obtain ⟨⟨⟨⟨⟨⟨⟨⟨hright, -⟩, -⟩, h3⟩, -⟩, -⟩, ha4⟩, ha3⟩, -⟩ := hqs
    exact ⟨_, king_step (s := -1) (Or.inr rfl) hking (hr.kings _ (Or.inr hright)) h3 ha4 ha3, hnp (-1)⟩

def LegalReply (g : TTChess) : Prop :=
  ∃ m, moveAccepted g m = true ∧ ttChessInCheck (playMove g m).board g.toMove = false

def PlainReply (g : TTChess) : Prop := ∃ m, Tried g m ∧ ¬ isEnPassant g m

def EpReply (g : TTChess) (taken : Bool) : Prop :=
  ∃ m, Accepted g m ∧ isEnPassant g m ∧
    moveLeavesSelfInCheck (if taken then g.board.clear m.fr m.tf else g.board) m.fr m.ff m.tr m.tf = false

def EpAgrees (g : TTChess) : Prop := PlainReply g ∨ (EpReply g false ↔ EpReply g true)

theorem isEnPassant.not_castling (h : isEnPassant g m) : ¬ isCastling g m := by
  rintro ⟨hk, -⟩
  rw [h.1] at hk
  cases hk

theorem hasLegalMove_iff : ttChessHasLegalMove g g.toMove = true ↔ PlainReply g ∨ EpReply g false := by
  rw [ttChessHasLegalMove_iff]
  constructor
  · rintro ⟨m, h⟩
    by_cases hep : isEnPassant g m
    · exact Or.inr ⟨m, h.accepted, hep, h.escapes⟩
    · exact Or.inl ⟨m, h, hep⟩
  · rintro (⟨m, h, -⟩ | ⟨m, h, hep, hesc⟩)
    · exact ⟨m, h⟩
    · exact ⟨m, h, hep.not_castling, hesc⟩

theorem Accepted.reply_inCheck (h : Accepted g m) (hc : ¬ isCastling g m) :
    (isEnPassant g m → ttChessInCheck (after g m) g.toMove =
      moveLeavesSelfInCheck (g.board.clear m.fr m.tf) m.fr m.ff m.tr m.tf) ∧
    (¬ isEnPassant g m → ttChessInCheck (after g m) g.toMove =
      moveLeavesSelfInCheck g.board m.fr m.ff m.tr m.tf) := by
  rw [h.after_inCheck hc, epVictimTaken, epCapture]
  constructor
  · rintro ⟨hp, hdf, ht⟩
    rw [if_pos ⟨hp, sub_ne_zero.mpr hdf, ht⟩]
  · intro hep
    rw [if_neg fun h => hep ⟨h.1, sub_ne_zero.mp h.2.1, h.2.2⟩]

theorem legalReply_iff (hr : CastlingRights g) : LegalReply g ↔ PlainReply g ∨ EpReply g true := by
  constructor
  · rintro ⟨m, hm, hcheck⟩
    obtain ⟨h, hb⟩ := playMove_board hm
    rw [hb] at hcheck
    by_cases hc : isCastling g m
    · exact Or.inl (h.castle_step hr hc)
    · obtain ⟨hyes, hno⟩ := h.reply_inCheck hc
      by_cases hep : isEnPassant g m
      · rw [hyes hep] at hcheck
        exact Or.inr ⟨m, h, hep, hcheck⟩
      · rw [hno hep] at hcheck
        exact Or.inl ⟨m, ⟨h, hc, hcheck⟩, hep⟩
  · rintro (⟨m, h, hep⟩ | ⟨m, h, hep, hesc⟩)
    · have hm := moveAccepted_iff.mpr h.accepted
      refine ⟨m, hm, ?_⟩
      rw [(playMove_board hm).2, (h.accepted.reply_inCheck h.notCastling).2 hep]
      exact h.escapes
    · have hm := moveAccepted_iff.mpr h
      refine ⟨m, hm, ?_⟩
      rw [(playMove_board hm).2, (h.reply_inCheck hep.not_castling).1 hep]
      exact hesc

theorem detection_iff (hr : CastlingRights g) :
    (ttChessHasLegalMove g g.toMove = true ↔ LegalReply g) ↔ EpAgrees g := by
  rw [hasLegalMove_iff, legalReply_iff hr, EpAgrees]
  tauto

theorem playMove_eq (hm : moveAccepted g m = true) : playMove g m =
    statusUpdated (moveMade g (g.board m.fr m.ff) (g.board m.tr m.tf) m.fr m.ff m.tr m.tf) g.toMove := by
  rw [playMove, (moveAccepted_iff.mp hm).ttChessMove_eq]
  rfl

theorem statusUpdated_spec (h : g.status = .playing) (hc : g.toMove = c.other) :
    ((statusUpdated g c).status = .checkmate ↔
      ttChessInCheck g.board g.toMove = true ∧ ttChessHasLegalMove g g.toMove = false) ∧
    ((statusUpdated g c).status = .checkmate → (statusUpdated g c).winner = c) ∧
    ((statusUpdated g c).status = .stalemate ↔
      ttChessInCheck g.board g.toMove = false ∧ ttChessHasLegalMove g g.toMove = false) := by
  unfold statusUpdated
  rw [← hc]
  cases ttChessInCheck g.board g.toMove <;> cases ttChessHasLegalMove g g.toMove <;> simp [h]

def StatusRight (g g' : TTChess) : Prop :=
  (g'.status = .checkmate ↔ ttChessInCheck g'.board g'.toMove = true ∧ ¬ LegalReply g') ∧
    (g'.status = .checkmate → g'.winner = g.toMove) ∧
    (g'.status = .stalemate ↔ ttChessInCheck g'.board g'.toMove = false ∧ ¬ LegalReply g')

theorem playMove_status (hp : g.status = .playing) (hm : moveAccepted g m = true) :
    ((playMove g m).status = .checkmate ↔
      ttChessInCheck (playMove g m).board (playMove g m).toMove = true ∧
        ttChessHasLegalMove (playMove g m) (playMove g m).toMove = false) ∧
    ((playMove g m).status = .checkmate → (playMove g m).winner = g.toMove) ∧
    ((playMove g m).status = .stalemate ↔
      ttChessInCheck (playMove g m).board (playMove g m).toMove = false ∧
        ttChessHasLegalMove (playMove g m) (playMove g m).toMove = false) := by
  have hspec := statusUpdated_spec (g := moveMade g (g.board m.fr m.ff) (g.board m.tr m.tf) m.fr m.ff
    m.tr m.tf) (c := g.toMove) hp rfl
  -- the generator reads neither the status nor the winner
  have hsame : (playMove g m).board = (moveMade g (g.board m.fr m.ff) (g.board m.tr m.tf) m.fr m.ff
        m.tr m.tf).board ∧ (playMove g m).toMove = g.toMove.other ∧
      ttChessHasLegalMove (playMove g m) g.toMove.other = ttChessHasLegalMove
        (moveMade g (g.board m.fr m.ff) (g.board m.tr m.tf) m.fr m.ff m.tr m.tf) g.toMove.other := by
    rw [playMove_eq hm]
    obtain ⟨st, w, he⟩ := statusUpdated_eq (moveMade g (g.board m.fr m.ff) (g.board m.tr m.tf) m.fr
      m.ff m.tr m.tf) g.toMove
    rw [he]
    exact ⟨rfl, rfl, rfl⟩
  obtain ⟨hb, ht, hl⟩ := hsame
  rw [hb, ht, hl, playMove_eq hm]
  exact hspec

theorem verdict_iff {check found : Bool} {L W : Prop} (hw : check = true ∧ found = false → W) :
    ((check = true ∧ found = false ↔ check = true ∧ ¬ L) ∧ (check = true ∧ found = false → W) ∧
      (check = false ∧ found = false ↔ check = false ∧ ¬ L)) ↔ (found = true ↔ L) := by
  by_cases hL : L <;> cases check <;> cases found <;> simp_all

theorem status_iff (hr : CastlingRights g) (hp : g.status = .playing) (hm : moveAccepted g m = true) :
    StatusRight g (playMove g m) ↔ EpAgrees (playMove g m) := by
  obtain ⟨hmate, hwin, hstale⟩ := playMove_status hp hm
  rw [← detection_iff (playMove_rights hr), StatusRight, hmate, hstale]
  exact verdict_iff fun h => hwin (hmate.mpr h)

theorem mate_detection (ms : List Move) :
    let g := play ttChessInit ms
    ((ttChessHasLegalMove g g.toMove = true ↔ LegalReply g) ↔ EpAgrees g) ∧
      (g.status = .playing → ∀ m, moveAccepted g m = true →
        (StatusRight g (playMove g m) ↔ EpAgrees (playMove g m))) := by
  have hr := play_rights ms ttChessInit_rights
  exact ⟨detection_iff hr, fun hp m hm => status_iff hr hp hm⟩

theorem epAgrees_of_no_marker (h : g.epFile < 0) : EpAgrees g := by
  have hno (taken : Bool) : ¬ EpReply g taken := by
    rintro ⟨m, ha, ⟨hp, hdf, ht⟩, -⟩
    have htf := (ha.ep_squares hp (sub_ne_zero.mpr hdf) ht).2.2
    have htgt := inBounds_iff.mp ha.target
    omega
  exact Or.inr (iff_of_false (hno false) (hno true))

namespace Instance

theorem mate_detection_fools :
    StatusRight (play ttChessInit (foolsGame.take 3))
      (playMove (play ttChessInit (foolsGame.take 3)) ⟨7, 3, 3, 7⟩) := by
  apply ((mate_detection (foolsGame.take 3)).2 (by decide +kernel) ⟨7, 3, 3, 7⟩
    (by decide +kernel)).mpr
  apply epAgrees_of_no_marker
  decide +kernel

-- 1. h4 f5 2. d4 f4 3. Nc3 e6 4. Rb1 g6 5. Ra1 Kf7 6. Rb1 Kf6 7. Ra1 Kf5 8. Rb1 Qf6 9. e4
def epMateGame : List Move :=
  [⟨1, 7, 3, 7⟩, ⟨6, 5, 4, 5⟩, ⟨1, 3, 3, 3⟩, ⟨4, 5, 3, 5⟩, ⟨0, 1, 2, 2⟩, ⟨6, 4, 5, 4⟩,
    ⟨0, 0, 0, 1⟩, ⟨6, 6, 5, 6⟩, ⟨0, 1, 0, 0⟩, ⟨7, 4, 6, 5⟩, ⟨0, 0, 0, 1⟩, ⟨6, 5, 5, 5⟩,
    ⟨0, 1, 0, 0⟩, ⟨5, 5, 4, 5⟩, ⟨0, 0, 0, 1⟩, ⟨7, 3, 5, 5⟩, ⟨1, 4, 3, 4⟩]

theorem epMateGame_facts :
    (play ttChessInit (epMateGame.take 16)).status = .playing ∧
      (play ttChessInit epMateGame).status = .checkmate ∧
      (play ttChessInit epMateGame).toMove = .black ∧
      ttChessHasLegalMove (play ttChessInit epMateGame) .black = false ∧
      moveAccepted (play ttChessInit epMateGame) ⟨3, 5, 2, 4⟩ = true ∧
      ttChessInCheck (playMove (play ttChessInit epMateGame) ⟨3, 5, 2, 4⟩).board .black = false := by
  decide +kernel

theorem ep_mate_missed :
    (play ttChessInit (epMateGame.take 16)).status = .playing ∧
      (play ttChessInit epMateGame).status = .checkmate ∧
      ¬ (ttChessHasLegalMove (play ttChessInit epMateGame) (play ttChessInit epMateGame).toMove = true ↔
        LegalReply (play ttChessInit epMateGame)) := by
  obtain ⟨hplaying, hmate, hblack, hno, hmove, hsafe⟩ := epMateGame_facts
  refine ⟨hplaying, hmate, fun h => ?_⟩
  rw [hblack, hno] at h
  have hreply : LegalReply (play ttChessInit epMateGame) := by
    refine ⟨⟨3, 5, 2, 4⟩, hmove, ?_⟩
    rw [hblack]
    exact hsafe
  cases h.mpr hreply

end Instance

end TkTox.Chess
