import TkTox.ChessRights

/-!
Attacks and captures. The attack test walks outward from the square with offset tables and rays,
the move test walks inward from the piece with differences and a path loop; on a square of the
side that is not to move they accept the same pieces.
-/

namespace TkTox.Chess

variable {g : TTChess} {m : Move} {b : Board} {attacker : TTColor} {type : TTPieceType}
  {d : ℤ × ℤ} {r f fr ff tr tf : ℤ} {k : ℕ}

theorem Accepted.ttChessMove_eq (h : Accepted g m) : ttChessMove g m.fr m.ff m.tr m.tf =
    some (statusUpdated (moveMade g (g.board m.fr m.ff) (g.board m.tr m.tf) m.fr m.ff m.tr m.tf)
      g.toMove) := by
  have hin : ¬ (!inBounds m.fr m.ff || !inBounds m.tr m.tf) = true := by
    simp [h.source, h.target]
  have hpiece : ¬ ((g.board m.fr m.ff).type = .none ∨ (g.board m.fr m.ff).color ≠ g.toMove) :=
    not_or.mpr ⟨h.piece, not_not.mpr h.turn⟩
  have hown : ¬ ((g.board m.tr m.tf).type ≠ .none ∧
      (g.board m.tr m.tf).color = (g.board m.fr m.ff).color) := by
    rw [h.turn]
    exact fun h2 => h.notOwn h2.1 h2.2
  rw [ttChessMove, if_neg hin]
  dsimp only
  rw [if_neg hpiece, if_neg hown, if_neg (by simp [h.legal]), h.turn]

theorem moveAccepted_iff : moveAccepted g m = true ↔ Accepted g m := by
  constructor
  · intro hm
    exact (playMove_board hm).1
  · intro h
    rw [moveAccepted, h.ttChessMove_eq]
    rfl

theorem dir_cases (hd : d ∈ dirs ∨ d ∈ ddirs) :
    (d.1 = -1 ∨ d.1 = 0 ∨ d.1 = 1) ∧ (d.2 = -1 ∨ d.2 = 0 ∨ d.2 = 1) ∧ (d.1 ≠ 0 ∨ d.2 ≠ 0) := by
  simp only [dirs, ddirs, List.mem_cons, List.not_mem_nil, or_false] at hd
  obtain (rfl | rfl | rfl | rfl) | (rfl | rfl | rfl | rfl) := hd <;> decide

theorem neg_mem_dirs (hd : d ∈ dirs) : (-d.1, -d.2) ∈ dirs := by
  simp only [dirs, List.mem_cons, List.not_mem_nil, or_false] at hd
  obtain rfl | rfl | rfl | rfl := hd <;> decide

theorem neg_mem_ddirs (hd : d ∈ ddirs) : (-d.1, -d.2) ∈ ddirs := by
  simp only [ddirs, List.mem_cons, List.not_mem_nil, or_false] at hd
  obtain rfl | rfl | rfl | rfl := hd <;> decide

theorem sign_steps {s t u : ℤ} (hs : s = -1 ∨ s = 0 ∨ s = 1) (ht : t = u + s + k * s) :
    sign (t - u) = s := by
  obtain rfl | rfl | rfl := hs
  · rw [sign, if_neg (by omega), if_pos (by omega)]
    rfl
  · rw [sign, if_neg (by omega), if_neg (by omega)]
    rfl
  · rw [sign, if_pos (by omega), if_neg (by omega)]
    rfl

theorem straight_of_steps (hd : d ∈ dirs) (htr : tr = fr + d.1 + k * d.1)
    (htf : tf = ff + d.2 + k * d.2) : straight (tr - fr) (tf - ff) = true := by
  simp only [dirs, List.mem_cons, List.not_mem_nil, or_false] at hd
  simp only [straight, bne_iff_ne, ne_eq, decide_eq_decide]
  obtain rfl | rfl | rfl | rfl := hd <;> dsimp only at htr htf <;> omega

theorem diag_of_steps (hd : d ∈ ddirs) (htr : tr = fr + d.1 + k * d.1)
    (htf : tf = ff + d.2 + k * d.2) : diag (tr - fr) (tf - ff) = true := by
  simp only [ddirs, List.mem_cons, List.not_mem_nil, or_false] at hd
  simp only [diag, Bool.and_eq_true, decide_eq_true_eq, Bool.or_eq_true, beq_iff_eq]
  obtain rfl | rfl | rfl | rfl := hd <;> dsimp only at htr htf <;> omega

def Slides (type : TTPieceType) (d : ℤ × ℤ) : Prop :=
  (d ∈ dirs ∧ (type = .rook ∨ type = .queen)) ∨ (d ∈ ddirs ∧ (type = .bishop ∨ type = .queen))

theorem slideLegal_of_steps {p : TTPiece} (hd : Slides p.type d) (hk : k < ttChessRanks)
    (htr : tr = fr + d.1 + k * d.1) (htf : tf = ff + d.2 + k * d.2)
    (hfree : ∀ j : ℕ, j < k → (g.board (fr + d.1 + j * d.1) (ff + d.2 + j * d.2)).type = .none) :
    slideLegal g p fr ff tr tf = true := by
  obtain ⟨h1, h2, hne⟩ := dir_cases (hd.imp And.left And.left)
  simp only [slideLegal, Bool.and_eq_true, Bool.or_eq_true, beq_iff_eq]
  refine ⟨?_, ?_⟩
  · obtain ⟨hd, ht | ht⟩ | ⟨hd, ht | ht⟩ := hd
    · exact Or.inl (Or.inl ⟨ht, straight_of_steps hd htr htf⟩)
    · exact Or.inr ⟨ht, Or.inl (straight_of_steps hd htr htf)⟩
    · exact Or.inl (Or.inr ⟨ht, diag_of_steps hd htr htf⟩)
    · exact Or.inr ⟨ht, Or.inr (diag_of_steps hd htr htf)⟩
  · rw [sign_steps h1 htr, sign_steps h2 htf, htr, htf, pathClear_iff hne hk]
    exact hfree

theorem slideLegal_of_hits {p : TTPiece} (h : Hits g.board attacker type d (tr + d.1) (tf + d.2) k)
    (hd : Slides p.type d) (hfr : fr = tr + d.1 + k * d.1) (hff : ff = tf + d.2 + k * d.2) :
    slideLegal g p fr ff tr tf = true := by
  have hback : Slides p.type (-d.1, -d.2) :=
    hd.imp (And.imp_left neg_mem_dirs) (And.imp_left neg_mem_ddirs)
  have hsq (j : ℕ) (hj : j < k) (s t u : ℤ) (hu : u = t + s + k * s) :
      u + -s + j * -s = t + s + ((k - 1 - j : ℕ) : ℤ) * s := by
    have hcast : ((k - 1 - j : ℕ) : ℤ) = k - 1 - j := by omega
    rw [hu, hcast]
    ring
  apply slideLegal_of_steps hback (h.lt (hd.imp And.left And.left))
  · rw [hfr]
    ring
  · rw [hff]
    ring
  · intro j hj
    have hfree := h.2.1 (k - 1 - j) (by omega)
    rw [hsq j hj d.1 tr fr hfr, hsq j hj d.2 tf ff hff]
    exact hfree

def CapturesFrom (g : TTChess) (r f fr ff : ℤ) : Prop :=
  inBounds fr ff = true ∧ (g.board fr ff).type ≠ .none ∧ (g.board fr ff).color = g.toMove ∧
    pseudoLegal g (g.board fr ff) (g.board r f) fr ff r f = true

theorem leap_captures (ht : (g.board r f).type ≠ .none) (h : LeapAttacks g.board r f g.toMove) :
    ∃ fr ff, CapturesFrom g r f fr ff := by
  obtain ⟨⟨fr, ff⟩, hin, ⟨h1, h2, hp⟩ | ⟨hm, hp⟩ | ⟨hm, hp⟩⟩ := h
  · refine ⟨fr, ff, hin, ?_, ?_, ?_⟩ <;> rw [hp]
    · simp
    · dsimp only at h1 h2
      have hdf : f - ff = 1 ∨ f - ff = -1 := by omega
      have hdf0 : ¬ (f - ff = 0 ∧ (g.board r f).type = .none) := fun h0 => ht h0.2
      have hdr : r - fr = pawnDir g.toMove := by
        rw [h1, pawnRank, pawnDir]
        split_ifs <;> omega
      simp only [pseudoLegal, pawnLegal]
      rw [if_neg hdf0, if_pos hdf, hdr]
      simp [ht]
  · refine ⟨fr, ff, hin, ?_, ?_, ?_⟩ <;> rw [hp]
    · simp
    · have hback := mem_kd_neg hm
      simp only [pseudoLegal, knightLegal, decide_eq_true_eq]
      simpa using hback
  · refine ⟨fr, ff, hin, ?_, ?_, ?_⟩ <;> rw [hp]
    · simp
    · have hnear := mem_ring.mp hm
      simp only [pseudoLegal, kingLegal]
      rw [if_pos (by dsimp only at hnear; omega)]

theorem slide_captures (h : SlideAttacks g.board r f g.toMove) : ∃ fr ff, CapturesFrom g r f fr ff := by
  obtain ⟨d, k, ⟨hd, hk⟩ | ⟨hd, hk⟩⟩ := h
  all_goals
    have hin := hk.1 k le_rfl
    refine ⟨_, _, hin, ?_⟩
    obtain hp | hp := hk.2.2 <;> rw [hp]
  · exact ⟨by simp, rfl, slideLegal_of_hits hk (Or.inl ⟨hd, Or.inl rfl⟩) rfl rfl⟩
  · exact ⟨by simp, rfl, slideLegal_of_hits hk (Or.inl ⟨hd, Or.inr rfl⟩) rfl rfl⟩
  · exact ⟨by simp, rfl, slideLegal_of_hits hk (Or.inr ⟨hd, Or.inl rfl⟩) rfl rfl⟩
  · exact ⟨by simp, rfl, slideLegal_of_hits hk (Or.inr ⟨hd, Or.inr rfl⟩) rfl rfl⟩

theorem Accepted.castle_target (h : Accepted g m)
    (hk : ∀ c, ksRight g c = true ∨ qsRight g c = true → KingsHome g c) (hc : isCastling g m) :
    (g.board m.tr m.tf).type = .none := by
  have hff := (h.castle_kings hk hc).2
  obtain ⟨htr, ⟨hdf, hks⟩ | ⟨hdf, hqs⟩⟩ := h.castle_legal hc
  · simp only [castleKs, Bool.and_eq_true, beq_iff_eq] at hks
    rw [htr, show m.tf = 6 by omega]
    exact hks.1.1.1.1.1.2
  · simp only [castleQs, Bool.and_eq_true, beq_iff_eq] at hqs
    rw [htr, show m.tf = 2 by omega]
    exact hqs.1.1.1.1.1.1.2

theorem attacked_iff_capture (g : TTChess)
    (hk : ∀ c, ksRight g c = true ∨ qsRight g c = true → KingsHome g c)
    (hin : inBounds r f = true) (ht : (g.board r f).type ≠ .none)
    (hc : (g.board r f).color = g.toMove.other) :
    ttChessSquareAttacked g.board r f g.toMove = true ↔
      ∃ fr ff, moveAccepted g ⟨fr, ff, r, f⟩ = true := by
  constructor
  · intro h
    have hcap : ∃ fr ff, CapturesFrom g r f fr ff := by
      obtain h | h := ttChessSquareAttacked_iff.mp h
      · exact leap_captures ht h
      · exact slide_captures h
    obtain ⟨fr, ff, hfrom, hpiece, hturn, hlegal⟩ := hcap
    refine ⟨fr, ff, moveAccepted_iff.mpr ⟨hfrom, hin, hpiece, hturn, fun _ => ?_, hlegal⟩⟩
    rw [hc]
    exact g.toMove.other_ne
  · rintro ⟨fr, ff, hm⟩
    have h := moveAccepted_iff.mp hm
    have hcastle : ¬ isCastling g ⟨fr, ff, r, f⟩ := fun hc => ht (h.castle_target hk hc)
    have hat := pseudoLegal_attacks h.source h.target rfl ht
      (fun hp => ⟨fun e => hcastle ⟨hp, Or.inl e⟩, fun e => hcastle ⟨hp, Or.inr e⟩⟩) h.legal
    rwa [h.turn] at hat

namespace Instance

def centreGame : List Move := [⟨1, 4, 3, 4⟩, ⟨6, 3, 4, 3⟩]

theorem attacked_iff_capture_centre :
    ∃ fr ff, moveAccepted (play ttChessInit centreGame) ⟨fr, ff, 4, 3⟩ = true := by
  apply (attacked_iff_capture (play ttChessInit centreGame)
    (play_rights centreGame ttChessInit_rights).kings (r := 4) (f := 3) (by decide)
    (by decide +kernel) (by decide +kernel)).mp
  decide +kernel

end Instance

end TkTox.Chess
