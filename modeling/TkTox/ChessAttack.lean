import TkTox.Chess

/-!
What the attack test finds, as a statement about squares: a leaper at its offset or a slider at
the end of a clear ray. From it follow the two facts the legality argument rests on: the test does
not see the defender's own pieces except as obstacles, and a piece that may capture on a square
attacks it.
-/

namespace TkTox.Chess

variable {b b' : Board} {c attacker : TTColor} {r f : ℤ} {d : ℤ × ℤ} {type : TTPieceType}

theorem inBounds_iff : inBounds r f = true ↔ 0 ≤ r ∧ r < 8 ∧ 0 ≤ f ∧ f < 8 := by
  simp [inBounds, and_assoc]

theorem pieceAt_iff : pieceAt b r f type c = true ↔ inBounds r f = true ∧ b r f = ⟨type, c⟩ := by
  cases h : b r f
  simp [pieceAt, h, and_assoc]

theorem TTColor.other_other (c : TTColor) : c.other.other = c := by
  cases c <;> rfl

theorem TTColor.eq_or_eq_other (c e : TTColor) : e = c ∨ e = c.other := by
  cases c <;> cases e <;> simp [TTColor.other]

theorem TTColor.other_ne (c : TTColor) : c.other ≠ c := by
  cases c <;> simp [TTColor.other]

theorem mem_squares {q : ℤ × ℤ} : q ∈ squares ↔ inBounds q.1 q.2 = true := by
  obtain ⟨r, f⟩ := q
  rw [inBounds_iff]
  simp only [squares, List.mem_flatMap, List.mem_map, List.mem_range, Prod.mk.injEq]
  constructor
  · rintro ⟨a, ha, e, he, rfl, rfl⟩
    simp only [ttChessRanks, ttChessFiles, Int.ofNat_eq_natCast] at ha he ⊢
    omega
  · rintro ⟨h1, h2, h3, h4⟩
    refine ⟨r.toNat, ?_, f.toNat, ?_, ?_, ?_⟩ <;>
      simp only [ttChessRanks, ttChessFiles, Int.ofNat_eq_natCast] <;> omega

def Hits (b : Board) (attacker : TTColor) (type : TTPieceType) (d : ℤ × ℤ) (r f : ℤ) (k : ℕ) :
    Prop :=
  (∀ j : ℕ, j ≤ k → inBounds (r + j * d.1) (f + j * d.2) = true) ∧
  (∀ j : ℕ, j < k → (b (r + j * d.1) (f + j * d.2)).type = .none) ∧
  (b (r + k * d.1) (f + k * d.2) = ⟨type, attacker⟩ ∨
    b (r + k * d.1) (f + k * d.2) = ⟨.queen, attacker⟩)

theorem hits_zero : Hits b attacker type d r f 0 ↔
    inBounds r f = true ∧ (b r f = ⟨type, attacker⟩ ∨ b r f = ⟨.queen, attacker⟩) := by
  constructor
  · rintro ⟨hin, -, hp⟩
    have h0 := hin 0 le_rfl
    simp only [Nat.cast_zero, zero_mul, add_zero] at h0 hp
    exact ⟨h0, hp⟩
  · rintro ⟨hin, hp⟩
    refine ⟨fun j hj => ?_, fun j hj => absurd hj (Nat.not_lt_zero j), ?_⟩
    · rw [Nat.le_zero.mp hj]
      simpa using hin
    · simpa using hp

theorem hits_succ (k : ℕ) : Hits b attacker type d r f (k + 1) ↔
    inBounds r f = true ∧ (b r f).type = .none ∧
      Hits b attacker type d (r + d.1) (f + d.2) k := by
  have hstep (j : ℕ) : r + ((j + 1 : ℕ) : ℤ) * d.1 = r + d.1 + j * d.1 ∧
      f + ((j + 1 : ℕ) : ℤ) * d.2 = f + d.2 + j * d.2 := by
    constructor <;> push_cast <;> ring
  constructor
  · rintro ⟨hin, hfree, hp⟩
    have h0 := hin 0 (by omega)
    have hf0 := hfree 0 (by omega)
    simp only [Nat.cast_zero, zero_mul, add_zero] at h0 hf0
    refine ⟨h0, hf0, fun j hj => ?_, fun j hj => ?_, ?_⟩
    · have h := hin (j + 1) (by omega)
      rwa [(hstep j).1, (hstep j).2] at h
    · have h := hfree (j + 1) (by omega)
      rwa [(hstep j).1, (hstep j).2] at h
    · rwa [(hstep k).1, (hstep k).2] at hp
  · rintro ⟨h0, hf0, hin, hfree, hp⟩
    refine ⟨fun j hj => ?_, fun j hj => ?_, ?_⟩
    · cases j with
      | zero => simpa using h0
      | succ j =>
        rw [(hstep j).1, (hstep j).2]
        exact hin j (by omega)
    · cases j with
      | zero => simpa using hf0
      | succ j =>
        rw [(hstep j).1, (hstep j).2]
        exact hfree j (by omega)
    · rwa [(hstep k).1, (hstep k).2]

theorem slideAttacked_iff (hq : type ≠ .none) (n : ℕ) :
    slideAttacked b attacker type d n r f = true ↔
      ∃ k < n, Hits b attacker type d r f k := by
  induction n generalizing r f with
  | zero => simp [slideAttacked]
  | succ n ih =>
    have hsplit : (∃ k < n + 1, Hits b attacker type d r f k) ↔
        Hits b attacker type d r f 0 ∨ ∃ k < n, Hits b attacker type d r f (k + 1) := by
      constructor
      · rintro ⟨k, hk, h⟩
        cases k with
        | zero => exact Or.inl h
        | succ k => exact Or.inr ⟨k, by omega, h⟩
      · rintro (h | ⟨k, hk, h⟩)
        · exact ⟨0, by omega, h⟩
        · exact ⟨k + 1, by omega, h⟩
    rw [hsplit, slideAttacked]
    simp only [hits_zero, hits_succ]
    by_cases hin : inBounds r f = true
    · rw [if_pos hin]
      cases hp : b r f with
      | mk ty co =>
        by_cases hty : ty = .none
        · subst hty
          rw [if_neg (by simp), ih]
          simp [hin, Ne.symm hq]
        · rw [if_pos hty]
          simp [hin, hty]
          tauto
    · simp [hin]

-- A ray from inside the grid is out of it after `ttChessRanks` steps, so the fuel is enough.
theorem Hits.lt (hd : d ∈ dirs ∨ d ∈ ddirs) {k : ℕ} (h : Hits b attacker type d r f k) :
    k < ttChessRanks := by
  have h0 := inBounds_iff.mp (h.1 0 (by omega))
  have hk := inBounds_iff.mp (h.1 k le_rfl)
  have hd' : d.1 = 1 ∨ d.1 = -1 ∨ d.2 = 1 ∨ d.2 = -1 := by
    simp only [dirs, ddirs, List.mem_cons, List.not_mem_nil, or_false] at hd
    rcases hd with (rfl | rfl | rfl | rfl) | (rfl | rfl | rfl | rfl) <;> simp
  simp only [ttChessRanks, Nat.cast_zero, zero_mul, add_zero] at h0 ⊢
  rcases hd' with e | e | e | e <;> rw [e] at hk <;> omega

theorem mem_ring {x y : ℤ} : (x, y) ∈ ring ↔ -1 ≤ x ∧ x ≤ 1 ∧ -1 ≤ y ∧ y ≤ 1 ∧ (x ≠ 0 ∨ y ≠ 0) := by
  constructor
  · simp only [ring, List.mem_cons, Prod.mk.injEq, List.not_mem_nil, or_false]
    omega
  · rintro ⟨h1, h2, h3, h4, h⟩
    have hx : x = -1 ∨ x = 0 ∨ x = 1 := by omega
    have hy : y = -1 ∨ y = 0 ∨ y = 1 := by omega
    rcases hx with rfl | rfl | rfl <;> rcases hy with rfl | rfl | rfl <;> simp [ring] at h ⊢

theorem mem_kd_neg {x y : ℤ} (h : (x, y) ∈ kd) : (-x, -y) ∈ kd := by
  simp only [kd, List.mem_cons, Prod.mk.injEq, List.not_mem_nil, or_false] at h
  rcases h with h | h | h | h | h | h | h | h <;> obtain ⟨rfl, rfl⟩ := h <;> simp [kd]

def LeapAttacks (b : Board) (r f : ℤ) (attacker : TTColor) : Prop :=
  ∃ q : ℤ × ℤ, inBounds q.1 q.2 = true ∧
    ((q.1 = pawnRank attacker r ∧ (q.2 = f - 1 ∨ q.2 = f + 1) ∧ b q.1 q.2 = ⟨.pawn, attacker⟩) ∨
      ((q.1 - r, q.2 - f) ∈ kd ∧ b q.1 q.2 = ⟨.knight, attacker⟩) ∨
      ((q.1 - r, q.2 - f) ∈ ring ∧ b q.1 q.2 = ⟨.king, attacker⟩))

def SlideAttacks (b : Board) (r f : ℤ) (attacker : TTColor) : Prop :=
  ∃ (d : ℤ × ℤ) (k : ℕ), (d ∈ dirs ∧ Hits b attacker .rook d (r + d.1) (f + d.2) k) ∨
    (d ∈ ddirs ∧ Hits b attacker .bishop d (r + d.1) (f + d.2) k)

theorem slideAttacked_eq_true (hq : type ≠ .none) (hd : d ∈ dirs ∨ d ∈ ddirs) :
    slideAttacked b attacker type d ttChessRanks r f = true ↔ ∃ k, Hits b attacker type d r f k := by
  rw [slideAttacked_iff hq]
  constructor
  · rintro ⟨k, -, h⟩
    exact ⟨k, h⟩
  · rintro ⟨k, h⟩
    exact ⟨k, h.lt hd, h⟩

theorem any_pieceAt_iff (l : List (ℤ × ℤ)) (type : TTPieceType) :
    l.any (fun d => pieceAt b (r + d.1) (f + d.2) type attacker) = true ↔
      ∃ q : ℤ × ℤ, inBounds q.1 q.2 = true ∧ (q.1 - r, q.2 - f) ∈ l ∧ b q.1 q.2 = ⟨type, attacker⟩ := by
  rw [List.any_eq_true]
  constructor
  · rintro ⟨d, hd, hp⟩
    obtain ⟨hin, hp⟩ := pieceAt_iff.mp hp
    refine ⟨(r + d.1, f + d.2), hin, ?_, hp⟩
    simpa using hd
  · rintro ⟨q, hin, hm, hp⟩
    refine ⟨_, hm, pieceAt_iff.mpr ?_⟩
    simpa using ⟨hin, hp⟩

theorem ttChessSquareAttacked_iff : ttChessSquareAttacked b r f attacker = true ↔
    LeapAttacks b r f attacker ∨ SlideAttacks b r f attacker := by
  have hslide : (dirs.any (fun d =>
          slideAttacked b attacker .rook d ttChessRanks (r + d.1) (f + d.2)) = true ∨
        ddirs.any (fun d =>
          slideAttacked b attacker .bishop d ttChessRanks (r + d.1) (f + d.2)) = true) ↔
      SlideAttacks b r f attacker := by
    rw [List.any_eq_true, List.any_eq_true]
    constructor
    · rintro (⟨d, hd, h⟩ | ⟨d, hd, h⟩)
      · obtain ⟨k, hk⟩ := (slideAttacked_eq_true (by simp) (Or.inl hd)).mp h
        exact ⟨d, k, Or.inl ⟨hd, hk⟩⟩
      · obtain ⟨k, hk⟩ := (slideAttacked_eq_true (by simp) (Or.inr hd)).mp h
        exact ⟨d, k, Or.inr ⟨hd, hk⟩⟩
    · rintro ⟨d, k, ⟨hd, hk⟩ | ⟨hd, hk⟩⟩
      · exact Or.inl ⟨d, hd, (slideAttacked_eq_true (by simp) (Or.inl hd)).mpr ⟨k, hk⟩⟩
      · exact Or.inr ⟨d, hd, (slideAttacked_eq_true (by simp) (Or.inr hd)).mpr ⟨k, hk⟩⟩
  rw [← hslide, ttChessSquareAttacked]
  simp only [Bool.or_eq_true, any_pieceAt_iff, pieceAt_iff, LeapAttacks]
  constructor
  · rintro (((((h | h) | ⟨q, hin, hm, hp⟩) | ⟨q, hin, hm, hp⟩) | h) | h)
    · exact Or.inl ⟨(_, _), h.1, Or.inl ⟨rfl, Or.inl rfl, h.2⟩⟩
    · exact Or.inl ⟨(_, _), h.1, Or.inl ⟨rfl, Or.inr rfl, h.2⟩⟩
    · exact Or.inl ⟨q, hin, Or.inr (Or.inl ⟨hm, hp⟩)⟩
    · exact Or.inl ⟨q, hin, Or.inr (Or.inr ⟨hm, hp⟩)⟩
    · exact Or.inr (Or.inl h)
    · exact Or.inr (Or.inr h)
  · rintro (⟨⟨qr, qf⟩, hin, ⟨h1, h2 | h2, hp⟩ | ⟨hm, hp⟩ | ⟨hm, hp⟩⟩ | h | h)
    · dsimp only at h1 h2 hin hp
      subst h1 h2
      exact Or.inl (Or.inl (Or.inl (Or.inl (Or.inl ⟨hin, hp⟩))))
    · dsimp only at h1 h2 hin hp
      subst h1 h2
      exact Or.inl (Or.inl (Or.inl (Or.inl (Or.inr ⟨hin, hp⟩))))
    · exact Or.inl (Or.inl (Or.inl (Or.inr ⟨_, hin, hm, hp⟩)))
    · exact Or.inl (Or.inl (Or.inr ⟨_, hin, hm, hp⟩))
    · exact Or.inl (Or.inr h)
    · exact Or.inr h

def SameTo (attacker : TTColor) (p q : TTPiece) : Prop :=
  p = q ∨ (p.type ≠ .none ∧ p.color ≠ attacker ∧ q.type ≠ .none ∧ q.color ≠ attacker)

theorem SameTo.symm {p q : TTPiece} (h : SameTo attacker p q) : SameTo attacker q p := by
  rcases h with h | ⟨h1, h2, h3, h4⟩
  · exact Or.inl h.symm
  · exact Or.inr ⟨h3, h4, h1, h2⟩

theorem SameTo.seen {p : TTPiece} (h : SameTo attacker p ⟨type, attacker⟩) :
    p = ⟨type, attacker⟩ := by
  rcases h with h | ⟨-, -, -, h⟩
  · exact h
  · exact absurd rfl h

theorem SameTo.free {p q : TTPiece} (h : SameTo attacker p q) (hq : q.type = .none) :
    p.type = .none := by
  rcases h with rfl | ⟨-, -, h, -⟩
  · exact hq
  · exact absurd hq h

theorem Hits.congr {k : ℕ} (h : Hits b attacker type d r f k)
    (hs : ∀ j : ℕ, j ≤ k → SameTo attacker (b' (r + j * d.1) (f + j * d.2))
      (b (r + j * d.1) (f + j * d.2))) : Hits b' attacker type d r f k := by
  refine ⟨h.1, fun j hj => (hs j hj.le).free (h.2.1 j hj), ?_⟩
  have hk := hs k le_rfl
  rcases h.2.2 with hp | hp
  · rw [hp] at hk
    exact Or.inl hk.seen
  · rw [hp] at hk
    exact Or.inr hk.seen

theorem LeapAttacks.congr (h : LeapAttacks b r f attacker)
    (hs : ∀ x y, SameTo attacker (b' x y) (b x y)) : LeapAttacks b' r f attacker := by
  obtain ⟨q, hin, ⟨h1, h2, hp⟩ | ⟨hm, hp⟩ | ⟨hm, hp⟩⟩ := h
  all_goals
    have hq := hs q.1 q.2
    rw [hp] at hq
  · exact ⟨q, hin, Or.inl ⟨h1, h2, hq.seen⟩⟩
  · exact ⟨q, hin, Or.inr (Or.inl ⟨hm, hq.seen⟩)⟩
  · exact ⟨q, hin, Or.inr (Or.inr ⟨hm, hq.seen⟩)⟩

theorem ttChessSquareAttacked_congr (hs : ∀ x y, SameTo attacker (b' x y) (b x y)) :
    ttChessSquareAttacked b' r f attacker = ttChessSquareAttacked b r f attacker := by
  have key {b b' : Board} (hs : ∀ x y, SameTo attacker (b' x y) (b x y))
      (h : ttChessSquareAttacked b r f attacker = true) :
      ttChessSquareAttacked b' r f attacker = true := by
    rw [ttChessSquareAttacked_iff] at h ⊢
    rcases h with h | ⟨d, k, ⟨hd, hk⟩ | ⟨hd, hk⟩⟩
    · exact Or.inl (h.congr hs)
    · exact Or.inr ⟨d, k, Or.inl ⟨hd, hk.congr fun j _ => hs _ _⟩⟩
    · exact Or.inr ⟨d, k, Or.inr ⟨hd, hk.congr fun j _ => hs _ _⟩⟩
  rw [Bool.eq_iff_iff]
  exact ⟨key fun x y => (hs x y).symm, key hs⟩

theorem pathClear_iff {sr sf : ℤ} (hs : sr ≠ 0 ∨ sf ≠ 0) {n m : ℕ} (hm : n < m) :
    pathClear b sr sf (r + n * sr) (f + n * sf) m r f = true ↔
      ∀ j : ℕ, j < n → (b (r + j * sr) (f + j * sf)).type = .none := by
  induction n generalizing r f m with
  | zero =>
    obtain ⟨m, rfl⟩ := Nat.exists_eq_add_one_of_ne_zero (by omega : m ≠ 0)
    simp [pathClear]
  | succ n ih =>
    obtain ⟨m, rfl⟩ := Nat.exists_eq_add_one_of_ne_zero (by omega : m ≠ 0)
    have hne : r ≠ r + ((n + 1 : ℕ) : ℤ) * sr ∨ f ≠ f + ((n + 1 : ℕ) : ℤ) * sf := by
      rcases hs with hs | hs
      · left
        intro he
        have h0 : ((n + 1 : ℕ) : ℤ) * sr = 0 := by omega
        rcases mul_eq_zero.mp h0 with h | h
        · omega
        · exact hs h
      · right
        intro he
        have h0 : ((n + 1 : ℕ) : ℤ) * sf = 0 := by omega
        rcases mul_eq_zero.mp h0 with h | h
        · omega
        · exact hs h
    have hstep (j : ℕ) (x s : ℤ) : x + ((j + 1 : ℕ) : ℤ) * s = x + s + j * s := by
      push_cast
      ring
    rw [pathClear, if_pos hne, hstep n r sr, hstep n f sf]
    have hsplit : (∀ j : ℕ, j < n + 1 → (b (r + j * sr) (f + j * sf)).type = .none) ↔
        (b r f).type = .none ∧
          ∀ j : ℕ, j < n → (b (r + sr + j * sr) (f + sf + j * sf)).type = .none := by
      constructor
      · intro h
        refine ⟨by simpa using h 0 (by omega), fun j hj => ?_⟩
        rw [← hstep, ← hstep]
        exact h (j + 1) (by omega)
      · rintro ⟨h0, h⟩ j hj
        cases j with
        | zero => simpa using h0
        | succ j =>
          rw [hstep, hstep]
          exact h j (by omega)
    rw [hsplit]
    by_cases h0 : (b r f).type = .none
    · rw [if_neg (by simpa using h0), ih (by omega)]
      simp [h0]
    · simp [h0]

theorem straight_spec {dr df : ℤ} (h : straight dr df = true) : ∃ n : ℕ,
    dr = (n + 1 : ℕ) * sign dr ∧ df = (n + 1 : ℕ) * sign df ∧ (-sign dr, -sign df) ∈ dirs := by
  rw [straight, bne_iff_ne, ne_eq, decide_eq_decide] at h
  refine ⟨dr.natAbs + df.natAbs - 1, ?_⟩
  rcases lt_trichotomy dr 0 with hr | rfl | hr
  · have hf : df = 0 := by by_contra hf; exact h (by omega)
    subst hf
    simp only [sign, if_neg (not_lt.mpr hr.le), if_pos hr, lt_irrefl, if_false, dirs]
    refine ⟨by omega, by omega, by simp⟩
  · rcases lt_trichotomy df 0 with hf | rfl | hf
    · simp only [sign, if_neg (not_lt.mpr hf.le), if_pos hf, lt_irrefl, if_false, dirs]
      refine ⟨by omega, by omega, by simp⟩
    · exact absurd Iff.rfl h
    · simp only [sign, if_neg (not_lt.mpr hf.le), if_pos hf, lt_irrefl, if_false, dirs]
      refine ⟨by omega, by omega, by simp⟩
  · have hf : df = 0 := by by_contra hf; exact h (by omega)
    subst hf
    simp only [sign, if_neg (not_lt.mpr hr.le), if_pos hr, lt_irrefl, if_false, dirs]
    refine ⟨by omega, by omega, by simp⟩

theorem diag_spec {dr df : ℤ} (h : diag dr df = true) : ∃ n : ℕ,
    dr = (n + 1 : ℕ) * sign dr ∧ df = (n + 1 : ℕ) * sign df ∧ (-sign dr, -sign df) ∈ ddirs := by
  simp only [diag, Bool.and_eq_true, decide_eq_true_eq, Bool.or_eq_true, beq_iff_eq] at h
  refine ⟨dr.natAbs - 1, ?_⟩
  rcases lt_or_gt_of_ne h.1.1 with hr | hr <;> rcases lt_or_gt_of_ne h.1.2 with hf | hf <;>
    simp only [sign, if_neg (not_lt.mpr hr.le), if_pos hr, if_neg (not_lt.mpr hf.le), if_pos hf,
      ddirs] <;>
    refine ⟨by omega, by omega, by simp⟩

-- Seen from the target, the path of a slider is a ray that ends at it.
theorem slide_hits {fr ff tr tf sr sf : ℤ} {n : ℕ} (hfrom : inBounds fr ff = true)
    (hto : inBounds tr tf = true) (hr : tr - fr = (n + 1 : ℕ) * sr) (hf : tf - ff = (n + 1 : ℕ) * sf)
    (hs : (-sr, -sf) ∈ dirs ∨ (-sr, -sf) ∈ ddirs)
    (hclear : pathClear b sr sf tr tf ttChessRanks (fr + sr) (ff + sf) = true)
    (hp : b fr ff = ⟨type, attacker⟩ ∨ b fr ff = ⟨.queen, attacker⟩) :
    Hits b attacker type (-sr, -sf) (tr + -sr) (tf + -sf) n := by
  have hsr : (sr = -1 ∨ sr = 0 ∨ sr = 1) ∧ (sf = -1 ∨ sf = 0 ∨ sf = 1) ∧ (sr ≠ 0 ∨ sf ≠ 0) := by
    simp only [dirs, ddirs, List.mem_cons, Prod.mk.injEq, List.not_mem_nil, or_false] at hs
    omega
  obtain ⟨h1, h2, h3⟩ := hsr
  rw [inBounds_iff] at hfrom hto
  have hn : n < ttChessRanks := by
    simp only [ttChessRanks]
    rcases h1 with rfl | rfl | rfl <;> rcases h2 with rfl | rfl | rfl <;> omega
  have htr : tr = fr + sr + n * sr := by
    rw [Int.sub_eq_iff_eq_add'.mp hr]
    push_cast
    ring
  have htf : tf = ff + sf + n * sf := by
    rw [Int.sub_eq_iff_eq_add'.mp hf]
    push_cast
    ring
  have hback (j : ℕ) (hj : j ≤ n) : tr + -sr + j * -sr = fr + ((n - j : ℕ) : ℤ) * sr ∧
      tf + -sf + j * -sf = ff + ((n - j : ℕ) : ℤ) * sf := by
    rw [htr, htf]
    push_cast [hj]
    constructor <;> ring
  rw [htr, htf, pathClear_iff h3 hn] at hclear
  refine ⟨fun j hj => ?_, fun j hj => ?_, ?_⟩
  · obtain ⟨e1, e2⟩ := hback j hj
    simp only [e1, e2, inBounds_iff]
    rcases h1 with rfl | rfl | rfl <;> rcases h2 with rfl | rfl | rfl <;> omega
  · obtain ⟨e1, e2⟩ := hback j hj.le
    have h := hclear (n - j - 1) (by omega)
    have e3 : ((n - j : ℕ) : ℤ) = ((n - j - 1 : ℕ) : ℤ) + 1 := by omega
    rw [e3] at e1 e2
    simp only [e1, e2]
    convert h using 3 <;> ring
  · obtain ⟨e1, e2⟩ := hback n le_rfl
    simpa only [e1, e2, Nat.sub_self, Nat.cast_zero, zero_mul, add_zero] using hp

theorem slideLegal_attacks {g : TTChess} {p : TTPiece} {fr ff tr tf : ℤ}
    (hfrom : inBounds fr ff = true) (hto : inBounds tr tf = true) (hp : g.board fr ff = p)
    (h : slideLegal g p fr ff tr tf = true) : SlideAttacks g.board tr tf p.color := by
  have hrook (hs : straight (tr - fr) (tf - ff) = true) (hty : p.type = .rook ∨ p.type = .queen)
      (hc : pathClear g.board (sign (tr - fr)) (sign (tf - ff)) tr tf ttChessRanks
        (fr + sign (tr - fr)) (ff + sign (tf - ff)) = true) :
      SlideAttacks g.board tr tf p.color := by
    obtain ⟨n, h1, h2, hd⟩ := straight_spec hs
    refine ⟨_, n, Or.inl ⟨hd, slide_hits hfrom hto h1 h2 (Or.inl hd) hc ?_⟩⟩
    obtain ⟨ty, co⟩ := p
    rw [hp]
    rcases hty with rfl | rfl <;> simp
  have hbishop (hs : diag (tr - fr) (tf - ff) = true) (hty : p.type = .bishop ∨ p.type = .queen)
      (hc : pathClear g.board (sign (tr - fr)) (sign (tf - ff)) tr tf ttChessRanks
        (fr + sign (tr - fr)) (ff + sign (tf - ff)) = true) :
      SlideAttacks g.board tr tf p.color := by
    obtain ⟨n, h1, h2, hd⟩ := diag_spec hs
    refine ⟨_, n, Or.inr ⟨hd, slide_hits hfrom hto h1 h2 (Or.inr hd) hc ?_⟩⟩
    obtain ⟨ty, co⟩ := p
    rw [hp]
    rcases hty with rfl | rfl <;> simp
  simp only [slideLegal, Bool.and_eq_true, Bool.or_eq_true, beq_iff_eq] at h
  obtain ⟨(⟨hty, hs⟩ | ⟨hty, hs⟩) | ⟨hty, hs | hs⟩, hc⟩ := h
  · exact hrook hs (Or.inl hty) hc
  · exact hbishop hs (Or.inl hty) hc
  · exact hrook hs (Or.inr hty) hc
  · exact hbishop hs (Or.inr hty) hc

theorem pseudoLegal_attacks {g : TTChess} {p t : TTPiece} {fr ff tr tf : ℤ}
    (hfrom : inBounds fr ff = true) (hto : inBounds tr tf = true) (hp : g.board fr ff = p)
    (ht : t.type ≠ .none) (hcastle : p.type = .king → tf - ff ≠ 2 ∧ tf - ff ≠ -2)
    (h : pseudoLegal g p t fr ff tr tf = true) :
    ttChessSquareAttacked g.board tr tf p.color = true := by
  rw [ttChessSquareAttacked_iff]
  obtain ⟨type, color⟩ := p
  cases type with
  | none => simp [pseudoLegal] at h
  | pawn =>
    simp only [pseudoLegal, pawnLegal, ht, and_false, if_false] at h
    split_ifs at h with hdf
    simp only [Bool.and_eq_true, beq_iff_eq] at h
    refine Or.inl ⟨(fr, ff), hfrom, Or.inl ⟨?_, ?_, hp⟩⟩
    · have h1 := h.1
      cases color <;> simp only [pawnDir, pawnRank, if_true, reduceCtorEq, if_false] at h1 ⊢ <;> omega
    · dsimp only
      omega
  | knight =>
    simp only [pseudoLegal, knightLegal, decide_eq_true_eq] at h
    refine Or.inl ⟨(fr, ff), hfrom, Or.inr (Or.inl ⟨?_, hp⟩)⟩
    simpa using mem_kd_neg h
  | king =>
    obtain ⟨h2, h2'⟩ := hcastle rfl
    simp only [pseudoLegal, kingLegal, h2, h2', and_false, if_false] at h
    split_ifs at h with hk
    refine Or.inl ⟨(fr, ff), hfrom, Or.inr (Or.inr ⟨mem_ring.mpr ?_, hp⟩)⟩
    dsimp only
    omega
  | rook => exact Or.inr (slideLegal_attacks hfrom hto hp h)
  | bishop => exact Or.inr (slideLegal_attacks hfrom hto hp h)
  | queen => exact Or.inr (slideLegal_attacks hfrom hto hp h)

def RowShut (b : Board) (r f s : ℤ) (attacker : TTColor) : Prop :=
  ((b r (f + s)).type ≠ .none ∧ (b r (f + s)).color ≠ attacker) ∨
    ∀ k : ℕ, inBounds r (f + s + k * s) = true → (b r (f + s + k * s)).type = .none

theorem RowShut.not_hits {s : ℤ} (hq : type ≠ .none) (h : RowShut b r f s attacker) (k : ℕ) :
    ¬ Hits b attacker type (0, s) (r + 0) (f + s) k := by
  rintro ⟨hin, hfree, hp⟩
  simp only [add_zero, mul_zero] at hin hfree hp
  have hkne : (b r (f + s + k * s)).type ≠ .none ∧ (b r (f + s + k * s)).color = attacker := by
    rcases hp with hp | hp <;> rw [hp] <;> simp [hq]
  rcases h with ⟨h1, h2⟩ | h
  · cases k with
    | zero =>
      simp only [Nat.cast_zero, zero_mul, add_zero] at hkne
      exact h2 hkne.2
    | succ k =>
      have h0 := hfree 0 (by omega)
      simp only [Nat.cast_zero, zero_mul, add_zero] at h0
      exact h1 h0
  · exact hkne.1 (h k (hin k le_rfl))

theorem RowShut.ne_king {s : ℤ} (h : RowShut b r f s attacker) (hin : inBounds r (f + s) = true) :
    b r (f + s) ≠ ⟨.king, attacker⟩ := by
  intro hk
  rcases h with ⟨-, h2⟩ | h
  · rw [hk] at h2
    exact h2 rfl
  · have h0 := h 0
    simp only [Nat.cast_zero, zero_mul, add_zero] at h0
    have := h0 hin
    rw [hk] at this
    cases this

theorem ttChessSquareAttacked_of_rowShut (hoff : ∀ x y, x ≠ r → b' x y = b x y)
    (hl : RowShut b' r f (-1) attacker) (hr : RowShut b' r f 1 attacker)
    (h : ttChessSquareAttacked b' r f attacker = true) :
    ttChessSquareAttacked b r f attacker = true := by
  have hray {type : TTPieceType} {d : ℤ × ℤ} {k : ℕ} (hd : d.1 = 1 ∨ d.1 = -1)
      (hk : Hits b' attacker type d (r + d.1) (f + d.2) k) :
      Hits b attacker type d (r + d.1) (f + d.2) k := by
    refine hk.congr fun j _ => Or.inl (hoff _ _ ?_).symm
    rcases hd with e | e <;> rw [e] <;> omega
  rw [ttChessSquareAttacked_iff] at h ⊢
  rcases h with ⟨q, hin, ⟨h1, h2, hp⟩ | ⟨hm, hp⟩ | ⟨hm, hp⟩⟩ | ⟨d, k, ⟨hd, hk⟩ | ⟨hd, hk⟩⟩
  · have hne : q.1 ≠ r := by
      rw [h1, pawnRank]
      split_ifs <;> omega
    rw [hoff _ _ hne] at hp
    exact Or.inl ⟨q, hin, Or.inl ⟨h1, h2, hp⟩⟩
  · have hne : q.1 ≠ r := by
      simp only [kd, List.mem_cons, Prod.mk.injEq, List.not_mem_nil, or_false] at hm
      omega
    rw [hoff _ _ hne] at hp
    exact Or.inl ⟨q, hin, Or.inr (Or.inl ⟨hm, hp⟩)⟩
  · by_cases hne : q.1 = r
    · obtain ⟨q1, q2⟩ := q
      dsimp only at hne hin hp hm
      subst hne
      have hq2 : q2 = f + -1 ∨ q2 = f + 1 := by
        have := mem_ring.mp hm
        omega
      rcases hq2 with rfl | rfl
      · exact absurd hp (hl.ne_king hin)
      · exact absurd hp (hr.ne_king hin)
    · rw [hoff _ _ hne] at hp
      exact Or.inl ⟨q, hin, Or.inr (Or.inr ⟨hm, hp⟩)⟩
  · simp only [dirs, List.mem_cons, List.not_mem_nil, or_false] at hd
    rcases hd with rfl | rfl | rfl | rfl
    · exact Or.inr ⟨_, k, Or.inl ⟨by simp [dirs], hray (Or.inl rfl) hk⟩⟩
    · exact Or.inr ⟨_, k, Or.inl ⟨by simp [dirs], hray (Or.inr rfl) hk⟩⟩
    · exact absurd hk (hr.not_hits (by simp) k)
    · exact absurd hk (hl.not_hits (by simp) k)
  · refine Or.inr ⟨d, k, Or.inr ⟨hd, hray ?_ hk⟩⟩
    simp only [ddirs, List.mem_cons, List.not_mem_nil, or_false] at hd
    rcases hd with rfl | rfl | rfl | rfl <;> simp

end TkTox.Chess
