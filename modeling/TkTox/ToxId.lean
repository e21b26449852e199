import TkTox.Bytes

/-!
The search of `extract_toxid_hex` and `toxid_span` for a ToxID in a pasted string. A string is the
memory up to its terminator; a read behind it has no result.
-/

namespace TkTox

@[simp] abbrev toxidWant : ℕ := 76

def isXdigit (b : UInt8) : Bool := (48 ≤ b && b ≤ 57) || (65 ≤ b && b ≤ 70) || (97 ≤ b && b ≤ 102)

def hexLen (mem : Bytes) (p : ℕ) : ℕ → Option ℕ
  | 0 => some 0
  | n + 1 => do
    let b ← mem[p]?
    if isXdigit b then (hexLen mem (p + 1) n).map (· + 1) else some 0

-- with `j = 0` the cursor moves by one, as `j - 1` is then 0
def toxidLoop (mem : Bytes) (p : ℕ) : Option (Option ℕ) :=
  if h : p + (toxidWant - 1) < mem.length then
    if mem[p + (toxidWant - 1)] = 0 then some none
    else
      match hexLen mem p toxidWant with
      | none => none
      | some j => if j = toxidWant then some (some p) else toxidLoop mem (p + (j - 1) + 1)
  else none
termination_by mem.length - p

/-- The start of the span and its length, as they are handed back. -/
def extractToxidHex (mem : Bytes) : Option (Option (ℕ × ℕ)) :=
  (toxidLoop mem 0).map (Option.map fun p => (p, toxidWant))

def toxidSpan (mem : Bytes) : Option (Option ℕ) := toxidLoop mem 0

def hexAt (s : Bytes) (i : ℕ) : Prop := ∃ b, s[i]? = some b ∧ isXdigit b = true

def HexRun (s : Bytes) (i : ℕ) : Prop := ∀ k < toxidWant, hexAt s (i + k)

structure FirstRun (s : Bytes) (i : ℕ) : Prop where
  run : HexRun s i
  first : ∀ k < i, ¬HexRun s k
  maximal : i = 0 ∨ ¬hexAt s (i - 1)

variable {s : Bytes} {p i : ℕ}

theorem hexAt.lt (h : hexAt s i) : i < s.length := by
  obtain ⟨b, hb, -⟩ := h
  exact (List.getElem?_eq_some_iff.mp hb).1

theorem HexRun.le (h : HexRun s i) : i + toxidWant ≤ s.length := by
  have := (h (toxidWant - 1) (by decide)).lt
  simp only [toxidWant] at this ⊢
  omega

theorem hexAt_terminated : hexAt (s ++ [0]) i ↔ hexAt s i := by
  constructor
  · rintro ⟨b, hb, hx⟩
    by_cases hi : i < s.length
    · rw [List.getElem?_append_left hi] at hb
      exact ⟨b, hb, hx⟩
    · rw [List.getElem?_append_right (not_lt.mp hi), List.getElem?_singleton] at hb
      split_ifs at hb
      cases hb
      exact absurd hx (by decide)
  · rintro ⟨b, hb, hx⟩
    refine ⟨b, ?_, hx⟩
    rw [List.getElem?_append_left (List.getElem?_eq_some_iff.mp hb).1]
    exact hb

theorem hexLen_spec {mem : Bytes} {n : ℕ} (h : p + n ≤ mem.length) :
    ∃ j ≤ n, hexLen mem p n = some j ∧ (∀ k < j, hexAt mem (p + k)) ∧ (j < n → ¬hexAt mem (p + j)) := by
  induction n generalizing p with
  | zero => exact ⟨0, le_rfl, rfl, fun k hk => absurd hk (Nat.not_lt_zero k), fun h => absurd h (lt_irrefl 0)⟩
  | succ n ih =>
    have hget : mem[p]? = some mem[p] := List.getElem?_eq_getElem (by omega)
    simp only [hexLen, hget, Option.bind_eq_bind, Option.bind_some]
    by_cases hx : isXdigit mem[p] = true
    · obtain ⟨j, hj, hlen, hall, hend⟩ := ih (p := p + 1) (by omega)
      refine ⟨j + 1, by omega, by rw [if_pos hx, hlen, Option.map_some], ?_, ?_⟩
      · intro k hk
        cases k with
        | zero => exact ⟨mem[p], hget, hx⟩
        | succ k =>
          have := hall k (by omega)
          rwa [Nat.add_right_comm] at this
      · intro hlt
        have := hend (by omega)
        rwa [Nat.add_right_comm] at this
    · refine ⟨0, Nat.zero_le _, if_neg hx, fun k hk => absurd hk (Nat.not_lt_zero k), ?_⟩
      rintro - ⟨b, hb, hxb⟩
      rw [Nat.add_zero, hget] at hb
      cases hb
      exact hx hxb

inductive Visited (s : Bytes) : ℕ → Prop
  | start : Visited s 0
  | next {q : ℕ} (hq : q + toxidWant ≤ s.length) (hx : ¬hexAt s q) : Visited s (q + 1)
  | skip {q p : ℕ} (hq : q + toxidWant ≤ s.length) (hlt : q < p) (hrun : ∀ i, q ≤ i → i < p → hexAt s i)
    (hx : ¬hexAt s p) : Visited s p

/-- The look-ahead meets the terminator or a span before it could pass it. -/
def LookaheadEnds (s : Bytes) : Prop :=
  toxidWant - 1 ≤ s.length ∧ ((∃ i, HexRun s i) ∨ s.length = toxidWant - 1 ∨
    ¬(hexAt s (s.length - toxidWant) ∧ hexAt s (s.length - (toxidWant - 1))))

theorem Visited.maximal (h : Visited s p) (hrun : HexRun s p) : p = 0 ∨ ¬hexAt s (p - 1) := by
  cases h with
  | start => exact Or.inl rfl
  | next hq hx => exact Or.inr hx
  | skip hq hlt hall hx => exact absurd (hrun 0 (by decide)) hx

theorem Visited.lookaheadEnds (h : Visited s p) (hp : p + (toxidWant - 1) = s.length) : LookaheadEnds s := by
  simp only [toxidWant] at hp
  refine ⟨by simp only [toxidWant]; omega, Or.inr ?_⟩
  cases h with
  | start =>
    left
    simp only [toxidWant]
    omega
  | @next q hq hx =>
    right
    have hn : s.length - toxidWant = q := by simp only [toxidWant]; omega
    rw [hn]
    exact fun h => hx h.1
  | skip hq hlt hrun hx =>
    right
    have hn : s.length - (toxidWant - 1) = p := by simp only [toxidWant]; omega
    rw [hn]
    exact fun h => hx h.2

theorem Visited.not_lookaheadEnds (h : Visited s p) (hno : ∀ i < p, ¬HexRun s i)
    (hp : s.length < p + (toxidWant - 1)) : ¬LookaheadEnds s := by
  rintro ⟨hlen, hend⟩
  simp only [toxidWant] at hp hlen
  have hnone : ¬∃ i, HexRun s i := by
    rintro ⟨i, hi⟩
    have hle := hi.le
    simp only [toxidWant] at hle
    exact hno i (by omega) hi
  cases h with
  | start => omega
  | next hq hx =>
    simp only [toxidWant] at hq
    omega
  | @skip q p hq hlt hrun hx =>
    simp only [toxidWant] at hq
    rcases hend with hi | hn | hn
    · exact hnone hi
    · simp only [toxidWant] at hn
      omega
    · apply hn
      constructor
      · exact hrun _ (by simp only [toxidWant]; omega) (by simp only [toxidWant]; omega)
      · exact hrun _ (by simp only [toxidWant]; omega) (by simp only [toxidWant]; omega)

/-- What the search is for: every read is inside the string, and the first span is found. -/
def Extracts (s : Bytes) (found : Option (Option ℕ)) : Prop :=
  ∃ r, found = some r ∧ (r ≠ none ↔ ∃ i, HexRun s i) ∧ ∀ i, r = some i → FirstRun s i

theorem toxidLoop_spec (h0 : 0 ∉ s) (p : ℕ) (hv : Visited s p) (hno : ∀ i < p, ¬HexRun s i) :
    (Extracts s (toxidLoop (s ++ [0]) p) ∧ LookaheadEnds s) ∨
      (toxidLoop (s ++ [0]) p = none ∧ ¬LookaheadEnds s) := by
  have hmem : (s ++ [0]).length = s.length + 1 := by simp
  induction hd : s.length - p using Nat.strong_induction_on generalizing p with
  | _ d ih =>
    rw [toxidLoop]
    by_cases hlt : p + (toxidWant - 1) < (s ++ [0]).length
    · rw [dif_pos hlt]
      by_cases hend : p + (toxidWant - 1) = s.length
      · left
        have hzero : (s ++ [0])[p + (toxidWant - 1)] = 0 := by
          simp only [hend, List.getElem_concat_length]
        rw [if_pos hzero]
        refine ⟨⟨none, rfl, ?_, fun i hi => by cases hi⟩, hv.lookaheadEnds hend⟩
        refine ⟨fun h => absurd rfl h, ?_⟩
        rintro ⟨i, hi⟩
        have hle := hi.le
        simp only [toxidWant] at hle hend
        exact absurd hi (hno i (by omega))
      · have hin : p + (toxidWant - 1) < s.length := by omega
        have hne : (s ++ [0])[p + (toxidWant - 1)] ≠ 0 := by
          rw [List.getElem_append_left hin]
          intro h
          exact h0 (h ▸ List.getElem_mem hin)
        rw [if_neg hne]
        simp only [toxidWant] at hin hlt
        have hroom : p + toxidWant ≤ (s ++ [0]).length := by
          simp only [toxidWant]
          omega
        obtain ⟨j, hj, hlen, hall, hstop⟩ := hexLen_spec hroom
        simp only [hexAt_terminated] at hall hstop
        rw [hlen]
        dsimp only
        by_cases hfull : j = toxidWant
        · rw [if_pos hfull]
          subst hfull
          exact Or.inl ⟨⟨some p, rfl, ⟨fun _ => ⟨p, hall⟩, fun _ => Option.some_ne_none p⟩,
            fun i hi => by cases hi; exact ⟨hall, hno, hv.maximal hall⟩⟩,
            by simp only [toxidWant]; omega, Or.inl ⟨p, hall⟩⟩
        · rw [if_neg hfull]
          have hj' : j < toxidWant := lt_of_le_of_ne hj hfull
          have hx := hstop hj'
          -- no run starts before the place that stopped this one
          have hskip : ∀ i < p + (j - 1) + 1, ¬HexRun s i := by
            intro i hi hrun
            rcases lt_or_ge i p with hip | hip
            · exact hno i hip hrun
            · simp only [toxidWant] at hj'
              have := hrun (p + j - i) (by simp only [toxidWant]; omega)
              rw [Nat.add_sub_cancel' (by omega)] at this
              exact hx this
          apply ih (s.length - (p + (j - 1) + 1)) (by omega) _ _ hskip rfl
          rcases Nat.eq_zero_or_pos j with hj0 | hj0
          · subst hj0
            exact .next (by simp only [toxidWant]; omega) hx
          · have hcur : p + (j - 1) + 1 = p + j := by omega
            rw [hcur]
            refine .skip (by simp only [toxidWant]; omega) (Nat.lt_add_of_pos_right hj0) ?_ hx
            intro i hpi hij
            have := hall (i - p) (by omega)
            rwa [Nat.add_sub_cancel' hpi] at this
    · rw [dif_neg hlt]
      exact Or.inr ⟨rfl, hv.not_lookaheadEnds hno (by omega)⟩

theorem toxidSpan_iff (h0 : 0 ∉ s) : Extracts s (toxidSpan (s ++ [0])) ↔ LookaheadEnds s := by
  rw [toxidSpan]
  rcases toxidLoop_spec h0 0 .start fun i hi => absurd hi (Nat.not_lt_zero i) with ⟨h, hends⟩ | ⟨h, hends⟩
  · exact iff_of_true h hends
  · rw [h]
    apply iff_of_false _ hends
    rintro ⟨r, hr, -⟩
    cases hr

/-- `extract_toxid_hex` stays inside the string and finds the first span exactly when its look-ahead
ends in time. -/
theorem extractToxidHex_iff (s : Bytes) (h0 : 0 ∉ s) :
    Extracts s ((extractToxidHex (s ++ [0])).map (Option.map Prod.fst)) ↔ LookaheadEnds s := by
  rw [← toxidSpan_iff h0, toxidSpan, extractToxidHex]
  rcases toxidLoop (s ++ [0]) 0 with _ | _ | p <;> rfl

namespace Instance

def pastedId : Bytes := List.replicate toxidWant 97

theorem extractToxidHex_iff_pastedId :
    Extracts pastedId ((extractToxidHex (pastedId ++ [0])).map (Option.map Prod.fst)) := by
  apply (extractToxidHex_iff pastedId (by decide)).mpr
  refine ⟨by decide, Or.inl ⟨0, ?_⟩⟩
  intro k hk
  exact ⟨97, by rw [pastedId, Nat.zero_add, List.getElem?_replicate, if_pos hk], by decide⟩

theorem shortText_overread :
    ¬Extracts [97, 98, 99] ((extractToxidHex ([97, 98, 99] ++ [0])).map (Option.map Prod.fst)) := by
  rintro ⟨r, hr, -⟩
  rw [extractToxidHex, toxidLoop, dif_neg (by decide)] at hr
  cases hr

end Instance

end TkTox
