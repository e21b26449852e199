import TkTox.Decimal
import TkTox.OfflineQueue
import TkTox.Tunnel

/-!
The port lists of `tunnel.h`: their text form and the parser of it.
-/

namespace TkTox

@[simp] abbrev ttTunnelMaxRanges : ℕ := 8

def atoi (undef : Bytes → ℤ) (b : Bytes) : ℤ :=
  let t := b.dropWhile isSpace
  let neg := t.head? = some 45
  let t := if t.head? = some 45 ∨ t.head? = some 43 then t.tail else t
  let v : ℤ := digitsValue (t.takeWhile isDigit)
  let v := if neg then -v else v
  if -2 ^ 31 ≤ v ∧ v < 2 ^ 31 then v else undef b

def portTokens (s : Bytes) : List Bytes := (((cString s).take 255).splitOn 44).filter (· ≠ [])

def portBounds (undef : Bytes → ℤ) (tok : Bytes) : ℤ × ℤ :=
  if 45 ∈ tok then
    (atoi undef (tok.takeWhile (· ≠ 45)), atoi undef ((tok.dropWhile (· ≠ 45)).drop 1))
  else (atoi undef tok, atoi undef tok)

def rangeSize (undef : Bytes → ℤ) (tok : Bytes) : ℕ :=
  ((portBounds undef tok).2 - (portBounds undef tok).1 + 1).toNat

def clampPorts (total cnt : ℕ) : ℕ :=
  if total + cnt > ttTunnelMaxPorts then ttTunnelMaxPorts - total else cnt

def parseRanges (undef : Bytes → ℤ) : TTPortRangeList → ℕ → List Bytes → Bool × TTPortRangeList
  | out, _, [] => (decide (0 < out.length), out)
  | out, total, tok :: toks =>
    if out.length ≥ ttTunnelMaxRanges then (false, out)
    else
      let lo := (portBounds undef tok).1
      let hi := (portBounds undef tok).2
      if lo ≤ 0 ∨ hi < lo ∨ hi > 65535 then (false, out)
      else
        let cnt := clampPorts total (rangeSize undef tok)
        if cnt = 0 then (false, out)
        else parseRanges undef (out ++ [⟨lo.toNat % 2 ^ 16, cnt % 2 ^ 16⟩]) (total + cnt) toks

def ttPortListParse (undef : Bytes → ℤ) (s : Bytes) : Bool × TTPortRangeList :=
  if cString s = [] then (false, []) else parseRanges undef [] 0 (portTokens s)

def rangeText (r : TTPortRange) : Bytes :=
  if r.count > 1 then decimal r.start ++ 45 :: decimal (r.start + r.count - 1) else decimal r.start

-- `snprintf` cuts the range that does not fit, and `n` does not count it
def toStrLoop (cap : ℕ) : Bytes → ℕ → TTPortRangeList → Bytes × ℕ
  | text, _, [] => (text, text.length)
  | text, i, r :: l =>
    if i ≠ 0 ∧ text.length + 1 ≥ cap then (text, text.length)
    else
      let text := if i ≠ 0 then text ++ [44] else text
      let w := rangeText r
      if w.length ≥ cap - text.length then (text ++ w.take (cap - text.length - 1), text.length)
      else toStrLoop cap (text ++ w) (i + 1) l

def ttPortListToStr (l : TTPortRangeList) (cap : ℕ) : Bytes × ℕ :=
  if cap = 0 then ([], 0) else toStrLoop cap [] 0 l

structure TTPortRange.Wf (r : TTPortRange) : Prop where
  start : 0 < r.start
  count : 0 < r.count
  last : r.start + r.count ≤ 2 ^ 16

structure PortsWf (l : TTPortRangeList) : Prop where
  ranges : l.length ≤ ttTunnelMaxRanges
  ports : ttPortListLen l ≤ ttTunnelMaxPorts
  wf : ∀ r ∈ l, r.Wf

variable {undef : Bytes → ℤ} {l out : TTPortRangeList} {r : TTPortRange} {tok : Bytes} {toks : List Bytes}
  {total cap : ℕ}

theorem ttPortListLen_cons : ttPortListLen (r :: l) = r.count + ttPortListLen l := by
  simp [ttPortListLen]

theorem ttPortListLen_concat : ttPortListLen (l ++ [r]) = ttPortListLen l + r.count := by
  simp [ttPortListLen]

theorem ttPortListPort_range (h : ∀ r ∈ l, r.Wf) {i : ℕ} (hi : i < ttPortListLen l) :
    1 ≤ ttPortListPort l i ∧ ttPortListPort l i ≤ 65535 := by
  induction l generalizing i with
  | nil => simp [ttPortListLen] at hi
  | cons r l ih =>
    rw [ttPortListLen_cons] at hi
    rw [ttPortListPort]
    split_ifs with hr
    · obtain ⟨h1, -, h3⟩ := h r (List.mem_cons_self ..)
      rw [Nat.mod_eq_of_lt (by omega)]
      omega
    · apply ih
      · intro r hr
        exact h r (List.mem_cons_of_mem _ hr)
      · omega

def GoodRange (undef : Bytes → ℤ) (tok : Bytes) : Prop :=
  0 < (portBounds undef tok).1 ∧ (portBounds undef tok).1 ≤ (portBounds undef tok).2 ∧
    (portBounds undef tok).2 ≤ 65535

theorem GoodRange.size_pos (h : GoodRange undef tok) : 0 < rangeSize undef tok := by
  obtain ⟨-, h2, -⟩ := h
  rw [rangeSize]
  omega

theorem clampPorts_eq (h : total ≤ ttTunnelMaxPorts) (cnt : ℕ) :
    clampPorts total cnt = min cnt (ttTunnelMaxPorts - total) := by
  rw [clampPorts]
  split_ifs <;> omega

def addedRange (undef : Bytes → ℤ) (total : ℕ) (tok : Bytes) : TTPortRange :=
  ⟨(portBounds undef tok).1.toNat, clampPorts total (rangeSize undef tok)⟩

theorem addedRange_fits (undef : Bytes → ℤ) (tok : Bytes) (htotal : total ≤ ttTunnelMaxPorts) :
    total + (addedRange undef total tok).count ≤ ttTunnelMaxPorts := by
  rw [addedRange, clampPorts_eq htotal]
  dsimp only
  omega

theorem addedRange_wf (h : GoodRange undef tok) (htotal : total < ttTunnelMaxPorts) :
    (addedRange undef total tok).Wf := by
  have hpos := h.size_pos
  obtain ⟨h1, h2, h3⟩ := h
  have hsize : (rangeSize undef tok : ℤ) = (portBounds undef tok).2 - (portBounds undef tok).1 + 1 := by
    rw [rangeSize, Int.toNat_of_nonneg (by omega)]
  rw [addedRange, clampPorts_eq htotal.le]
  constructor
  · dsimp only
    omega
  · dsimp only
    omega
  · dsimp only
    omega

def Takes (undef : Bytes → ℤ) (out : TTPortRangeList) (total : ℕ) (tok : Bytes) : Prop :=
  out.length < ttTunnelMaxRanges ∧ GoodRange undef tok ∧ total < ttTunnelMaxPorts

theorem parseRanges_takes (h : Takes undef out total tok) (toks : List Bytes) :
    parseRanges undef out total (tok :: toks) = parseRanges undef (out ++ [addedRange undef total tok])
      (total + (addedRange undef total tok).count) toks := by
  obtain ⟨hroom, hgood, htotal⟩ := h
  have hwf := addedRange_wf hgood htotal
  obtain ⟨h1, h2, h3⟩ := hgood
  have hs := hwf.count
  have hl := hwf.last
  rw [addedRange] at hs hl
  dsimp only at hs hl
  rw [parseRanges, if_neg (not_le.mpr hroom)]
  dsimp only
  rw [if_neg (by omega), if_neg (by omega), Nat.mod_eq_of_lt (by omega), Nat.mod_eq_of_lt (by omega)]
  rfl

theorem parseRanges_stops (h : ¬Takes undef out total tok) (htotal : total ≤ ttTunnelMaxPorts)
    (toks : List Bytes) : parseRanges undef out total (tok :: toks) = (false, out) := by
  rw [parseRanges]
  dsimp only
  split_ifs with hroom hbad hzero
  · rfl
  · rfl
  · rfl
  · refine absurd ⟨not_le.mp hroom, ⟨by omega, by omega, by omega⟩, ?_⟩ h
    rw [clampPorts_eq htotal] at hzero
    omega

theorem prefix_parseRanges (undef : Bytes → ℤ) (toks : List Bytes) (out : TTPortRangeList) {total : ℕ}
    (htotal : total ≤ ttTunnelMaxPorts) : out <+: (parseRanges undef out total toks).2 := by
  induction toks generalizing out total with
  | nil => exact List.prefix_refl out
  | cons tok toks ih =>
    by_cases h : Takes undef out total tok
    · rw [parseRanges_takes h]
      exact (List.prefix_append _ _).trans (ih _ (addedRange_fits undef tok htotal))
    · rw [parseRanges_stops h htotal]

theorem parseRanges_wf (undef : Bytes → ℤ) (toks : List Bytes) (h : PortsWf out) :
    PortsWf (parseRanges undef out (ttPortListLen out) toks).2 := by
  induction toks generalizing out with
  | nil => exact h
  | cons tok toks ih =>
    by_cases ht : Takes undef out (ttPortListLen out) tok
    · rw [parseRanges_takes ht, ← ttPortListLen_concat]
      obtain ⟨hroom, hgood, htotal⟩ := ht
      apply ih
      constructor
      · rw [List.length_append, List.length_singleton]
        exact hroom
      · rw [ttPortListLen_concat]
        exact addedRange_fits undef tok htotal.le
      · intro r hr
        obtain hr | hr := List.mem_append.mp hr
        · exact h.wf r hr
        · rw [List.mem_singleton.mp hr]
          exact addedRange_wf hgood htotal
    · rw [parseRanges_stops ht h.ports]
      exact h

structure AllTaken (undef : Bytes → ℤ) (taken total : ℕ) (toks : List Bytes) : Prop where
  good : ∀ tok ∈ toks, GoodRange undef tok
  ranges : taken + toks.length ≤ ttTunnelMaxRanges
  ports : toks ≠ [] → total + (toks.dropLast.map (rangeSize undef)).sum < ttTunnelMaxPorts

theorem allTaken_nil {taken : ℕ} (h : taken ≤ ttTunnelMaxRanges) : AllTaken undef taken total [] :=
  ⟨fun _ ht => absurd ht List.not_mem_nil, h, fun hne => absurd rfl hne⟩

theorem allTaken_cons (htotal : total ≤ ttTunnelMaxPorts) :
    AllTaken undef out.length total (tok :: toks) ↔ Takes undef out total tok ∧
      AllTaken undef (out.length + 1) (total + (addedRange undef total tok).count) toks := by
  rw [addedRange, clampPorts_eq htotal]
  dsimp only
  constructor
  · rintro ⟨hgood, hranges, hports⟩
    rw [List.length_cons] at hranges
    have hp := hports (List.cons_ne_nil tok toks)
    have htok := hgood tok (List.mem_cons_self ..)
    refine ⟨⟨by omega, htok, by omega⟩, fun t ht => hgood t (List.mem_cons_of_mem _ ht), by omega, ?_⟩
    intro hne
    rw [List.dropLast_cons_of_ne_nil hne, List.map_cons, List.sum_cons] at hp
    omega
  · rintro ⟨⟨hroom, htok, htot⟩, hgood, hranges, hports⟩
    refine ⟨?_, by rw [List.length_cons]; omega, fun _ => ?_⟩
    · intro t ht
      obtain rfl | ht := List.mem_cons.mp ht
      · exact htok
      · exact hgood t ht
    · by_cases hne : toks = []
      · subst hne
        simpa using htot
      · have := hports hne
        rw [List.dropLast_cons_of_ne_nil hne, List.map_cons, List.sum_cons]
        omega

theorem parseRanges_accepts (undef : Bytes → ℤ) (toks : List Bytes) (out : TTPortRangeList)
    (hroom : out.length ≤ ttTunnelMaxRanges) (htotal : total ≤ ttTunnelMaxPorts) :
    (parseRanges undef out total toks).1 = true ↔
      (out ≠ [] ∨ toks ≠ []) ∧ AllTaken undef out.length total toks := by
  induction toks generalizing out total with
  | nil =>
    rw [parseRanges, decide_eq_true_eq, List.length_pos_iff]
    constructor
    · intro h
      exact ⟨Or.inl h, allTaken_nil hroom⟩
    · rintro ⟨h | h, -⟩
      · exact h
      · exact absurd rfl h
  | cons tok toks ih =>
    rw [allTaken_cons htotal]
    by_cases h : Takes undef out total tok
    · rw [parseRanges_takes h, ih _ (by rw [List.length_append]; exact h.1)
        (addedRange_fits undef tok htotal), List.length_append, List.length_singleton]
      simp [h]
    · rw [parseRanges_stops h htotal]
      simp [h]

/-! ### The text form reads back -/

theorem decimal_head (n : ℕ) : ∃ b, (decimal n).head? = some b ∧ isDigit b = true := by
  obtain ⟨b, ds, hb⟩ := List.exists_cons_of_ne_nil (decimal_ne_nil n)
  exact ⟨b, by rw [hb]; rfl, decimal_digits n b (by rw [hb]; exact List.mem_cons_self ..)⟩

theorem decimal_not_mem {n : ℕ} {b : UInt8} (hb : isDigit b = false) : b ∉ decimal n := by
  intro h
  rw [decimal_digits n b h] at hb
  cases hb

theorem atoi_decimal (undef : Bytes → ℤ) {n : ℕ} (hn : n < 2 ^ 31) : atoi undef (decimal n) = n := by
  obtain ⟨b, hb, hd⟩ := decimal_head n
  obtain ⟨hsp, hm, hp⟩ := isDigit_not_space hd
  have hblank : (decimal n).dropWhile isSpace = decimal n := by
    cases hc : decimal n with
    | nil => rfl
    | cons c cs =>
      rw [hc] at hb
      cases hb
      exact List.dropWhile_cons_of_neg (by simp [hsp])
  have hall : (decimal n).takeWhile isDigit = decimal n := List.takeWhile_eq_self_iff.mpr (decimal_digits n)
  simp only [atoi, hblank, hb, Option.some.injEq, hm, hp, or_self, if_false, hall, digitsValue_decimal]
  rw [if_pos (by omega)]

theorem portBounds_rangeText (undef : Bytes → ℤ) (h : r.Wf) :
    portBounds undef (rangeText r) = ((r.start : ℤ), (r.start : ℤ) + r.count - 1) := by
  obtain ⟨h1, h2, h3⟩ := h
  have h45 : 45 ∉ decimal r.start := decimal_not_mem (by decide)
  rw [rangeText]
  split_ifs with hc
  · have hne : ∀ b ∈ decimal r.start, decide (b ≠ 45) = true := by
      intro b hb
      rw [decide_eq_true_eq]
      rintro rfl
      exact h45 hb
    rw [portBounds, if_pos (by simp), List.takeWhile_append_of_pos hne, List.dropWhile_append_of_pos hne,
      List.takeWhile_cons_of_neg (by simp), List.dropWhile_cons_of_neg (by simp), List.append_nil,
      List.drop_one, List.tail_cons, atoi_decimal undef (by omega), atoi_decimal undef (by omega)]
    congr 1
    omega
  · rw [portBounds, if_neg h45, atoi_decimal undef (by omega)]
    congr 1
    omega

theorem rangeText_plain (h : r.Wf) : rangeText r ≠ [] ∧ 44 ∉ rangeText r ∧ 0 ∉ rangeText r ∧
    (rangeText r).length ≤ 11 := by
  obtain ⟨h1, h2, h3⟩ := h
  have hne := decimal_ne_nil r.start
  have hl : (decimal r.start).length ≤ 5 := decimal_length_le (by decide) (by omega)
  have hl' : (decimal (r.start + r.count - 1)).length ≤ 5 := decimal_length_le (by decide) (by omega)
  have h44 (n : ℕ) : 44 ∉ decimal n := decimal_not_mem (by decide)
  have h0 (n : ℕ) : 0 ∉ decimal n := decimal_not_mem (by decide)
  rw [rangeText]
  split_ifs
  · refine ⟨by simp, ?_, ?_, ?_⟩
    · simp [h44]
    · simp [h0]
    · rw [List.length_append, List.length_cons]
      omega
  · exact ⟨hne, h44 _, h0 _, by omega⟩

theorem intercalate_ranges (r : TTPortRange) (l : TTPortRangeList) :
    [44].intercalate ((r :: l).map rangeText) = rangeText r ++ l.flatMap fun r => 44 :: rangeText r := by
  induction l generalizing r with
  | nil => simp
  | cons q l ih =>
    have := ih q
    simp only [List.map_cons] at this
    simp [List.intercalate_cons_cons, this]

theorem toStrLoop_fits (h : ∀ r ∈ l, (rangeText r).length ≤ 11) {text : Bytes} {i : ℕ} (hi : i ≠ 0)
    (hfit : text.length + 12 * l.length < cap) :
    (toStrLoop cap text i l).1 = text ++ l.flatMap fun r => 44 :: rangeText r := by
  induction l generalizing text i with
  | nil => simp [toStrLoop]
  | cons r l ih =>
    have hr := h r (List.mem_cons_self ..)
    rw [List.length_cons] at hfit
    rw [toStrLoop, if_neg (by omega)]
    simp only [hi, ne_eq, not_false_eq_true, if_true, List.length_append, List.length_singleton]
    rw [if_neg (by omega), ih (fun q hq => h q (List.mem_cons_of_mem _ hq)) (Nat.succ_ne_zero i)]
    · simp
    · simp only [List.length_append, List.length_singleton]
      omega

theorem ttPortListToStr_eq (h : PortsWf l) (hcap : 96 ≤ cap) :
    (ttPortListToStr l cap).1 = [44].intercalate (l.map rangeText) := by
  have hlen (r : TTPortRange) (hr : r ∈ l) := (rangeText_plain (h.wf r hr)).2.2.2
  have hranges := h.ranges
  rw [ttPortListToStr, if_neg (by omega)]
  cases l with
  | nil => simp [toStrLoop]
  | cons r l =>
    have hr := hlen r (List.mem_cons_self ..)
    simp only [List.length_cons, ttTunnelMaxRanges] at hranges
    rw [toStrLoop, if_neg (by simp), intercalate_ranges]
    simp only [ne_eq, not_true_eq_false, if_false, List.nil_append, List.length_nil]
    rw [if_neg (by omega), toStrLoop_fits (fun q hq => hlen q (List.mem_cons_of_mem _ hq)) (by decide)]
    omega

theorem intercalate_length (h : ∀ r ∈ l, (rangeText r).length ≤ 11) :
    ([44].intercalate (l.map rangeText)).length ≤ 12 * l.length := by
  cases l with
  | nil => simp
  | cons r l =>
    have hr := h r (List.mem_cons_self ..)
    have htail : (l.flatMap fun r => 44 :: rangeText r).length ≤ 12 * l.length := by
      rw [List.length_flatMap]
      apply (List.sum_le_card_nsmul _ 12 _).trans
      · simp [Nat.mul_comm]
      · intro k hk
        obtain ⟨q, hq, rfl⟩ := List.mem_map.mp hk
        have := h q (List.mem_cons_of_mem _ hq)
        rw [List.length_cons]
        omega
    rw [intercalate_ranges, List.length_append, List.length_cons]
    omega

theorem portTokens_toStr (h : PortsWf l) (hne : l ≠ []) :
    portTokens ([44].intercalate (l.map rangeText)) = l.map rangeText := by
  have hplain (r : TTPortRange) (hr : r ∈ l) := rangeText_plain (h.wf r hr)
  have hzero : 0 ∉ [44].intercalate (l.map rangeText) := by
    cases l with
    | nil => exact absurd rfl hne
    | cons r l =>
      rw [intercalate_ranges, List.mem_append, List.mem_flatMap]
      rintro (h0 | ⟨q, hq, h0⟩)
      · exact (hplain r (List.mem_cons_self ..)).2.2.1 h0
      · rw [List.mem_cons] at h0
        exact (hplain q (List.mem_cons_of_mem _ hq)).2.2.1 (h0.resolve_left (by decide))
  have hlen := intercalate_length fun r hr => (hplain r hr).2.2.2
  have hranges := h.ranges
  simp only [ttTunnelMaxRanges] at hranges
  rw [portTokens, cString_eq_self_iff.mpr hzero, List.take_of_length_le (by omega), List.splitOn_intercalate]
  · apply List.filter_eq_self.mpr
    intro t ht
    obtain ⟨r, hr, rfl⟩ := List.mem_map.mp ht
    simpa using (hplain r hr).1
  · intro t ht
    obtain ⟨r, hr, rfl⟩ := List.mem_map.mp ht
    exact (hplain r hr).2.1
  · simpa using hne

theorem addedRange_rangeText (undef : Bytes → ℤ) (h : r.Wf) (hfit : total + r.count ≤ ttTunnelMaxPorts) :
    GoodRange undef (rangeText r) ∧ addedRange undef total (rangeText r) = r := by
  have hb := portBounds_rangeText undef h
  obtain ⟨h1, h2, h3⟩ := h
  have hsize : rangeSize undef (rangeText r) = r.count := by
    rw [rangeSize, hb]
    dsimp only
    omega
  constructor
  · rw [GoodRange, hb]
    refine ⟨?_, ?_, ?_⟩ <;> dsimp only <;> omega
  · rw [addedRange, clampPorts_eq (by omega), hsize, hb, Nat.min_eq_left (by omega)]
    rfl

theorem parseRanges_texts (undef : Bytes → ℤ) (h : PortsWf (out ++ l)) :
    parseRanges undef out (ttPortListLen out) (l.map rangeText) = (decide (0 < (out ++ l).length), out ++ l) := by
  induction l generalizing out with
  | nil => simp [parseRanges]
  | cons r l ih =>
    have happ : out ++ r :: l = (out ++ [r]) ++ l := by simp
    have hwf := h.wf r (by simp)
    have hports := h.ports
    have hranges := h.ranges
    rw [ttPortListLen, List.map_append, List.sum_append, List.map_cons, List.sum_cons] at hports
    rw [List.length_append, List.length_cons] at hranges
    have hfit : ttPortListLen out + r.count ≤ ttTunnelMaxPorts := by
      rw [ttPortListLen]
      omega
    obtain ⟨hgood, hadd⟩ := addedRange_rangeText undef hwf hfit
    have htakes : Takes undef out (ttPortListLen out) (rangeText r) :=
      ⟨by omega, hgood, by have := hwf.count; omega⟩
    rw [List.map_cons, parseRanges_takes htakes, hadd, ← ttPortListLen_concat]
    rw [happ] at h ⊢
    exact ih h

theorem parse_toStr (undef : Bytes → ℤ) (h : PortsWf l) (hne : l ≠ []) (hcap : 96 ≤ cap) :
    ttPortListParse undef (ttPortListToStr l cap).1 = (true, l) := by
  have htok := portTokens_toStr h hne
  have htext : cString ([44].intercalate (l.map rangeText)) ≠ [] := by
    intro hnil
    rw [portTokens, hnil] at htok
    have hempty : l.map rangeText = [] := by rw [← htok]; rfl
    exact hne (List.map_eq_nil_iff.mp hempty)
  have hparse : parseRanges undef [] 0 (l.map rangeText) = (decide (0 < l.length), l) := parseRanges_texts undef h
  rw [ttPortListToStr_eq h hcap, ttPortListParse, if_neg htext, htok]
  exact hparse.trans (by simp [List.length_pos_iff.mpr hne])

/-- An accepted string gives a list of ports that reads back from its text; a rejected one gives no
ports. -/
structure ParsesPorts (undef : Bytes → ℤ) (s : Bytes) : Prop where
  ranges : (ttPortListParse undef s).1 = true → 1 ≤ (ttPortListParse undef s).2.length ∧
    (ttPortListParse undef s).2.length ≤ ttTunnelMaxRanges
  total : (ttPortListParse undef s).1 = true → ttPortListLen (ttPortListParse undef s).2 ≤ ttTunnelMaxPorts
  ports : (ttPortListParse undef s).1 = true → ∀ i < ttPortListLen (ttPortListParse undef s).2,
    1 ≤ ttPortListPort (ttPortListParse undef s).2 i ∧ ttPortListPort (ttPortListParse undef s).2 i ≤ 65535
  reads : (ttPortListParse undef s).1 = true → ∀ cap, 96 ≤ cap →
    ttPortListParse undef (ttPortListToStr (ttPortListParse undef s).2 cap).1 =
      (true, (ttPortListParse undef s).2)
  rejected : (ttPortListParse undef s).1 = false → (ttPortListParse undef s).2 = []

/-- The first token is no good, or all are taken. -/
def NoneOrAll (undef : Bytes → ℤ) (s : Bytes) : Prop :=
  (∀ tok ∈ (portTokens s).head?, ¬GoodRange undef tok) ∨ AllTaken undef 0 0 (portTokens s)

theorem portTokens_of_empty {s : Bytes} (h : cString s = []) : portTokens s = [] := by
  rw [portTokens, h]
  rfl

theorem ttPortListParse_eq (undef : Bytes → ℤ) (s : Bytes) :
    ttPortListParse undef s = parseRanges undef [] 0 (portTokens s) := by
  rw [ttPortListParse]
  split_ifs with h
  · rw [portTokens_of_empty h]
    rfl
  · rfl

theorem ttPortListParse_wf (undef : Bytes → ℤ) (s : Bytes) : PortsWf (ttPortListParse undef s).2 := by
  rw [ttPortListParse_eq]
  exact parseRanges_wf undef (portTokens s) ⟨Nat.zero_le _, Nat.zero_le _, fun r hr => by simp at hr⟩

theorem ttPortListParse_accepts (undef : Bytes → ℤ) (s : Bytes) :
    (ttPortListParse undef s).1 = true ↔ portTokens s ≠ [] ∧ AllTaken undef 0 0 (portTokens s) := by
  rw [ttPortListParse_eq, parseRanges_accepts undef (portTokens s) [] (Nat.zero_le _) (Nat.zero_le _)]
  simp

theorem ttPortListParse_empty (undef : Bytes → ℤ) (s : Bytes) :
    (ttPortListParse undef s).2 = [] ↔ ∀ tok ∈ (portTokens s).head?, ¬GoodRange undef tok := by
  rw [ttPortListParse_eq]
  cases hs : portTokens s with
  | nil => simp [parseRanges]
  | cons tok toks =>
    simp only [List.head?_cons, Option.mem_some_iff, forall_eq']
    by_cases h : Takes undef [] 0 tok
    · rw [parseRanges_takes h]
      have hpre := prefix_parseRanges undef toks ([] ++ [addedRange undef 0 tok])
        (addedRange_fits undef tok (Nat.zero_le _))
      apply iff_of_false _ (not_not.mpr h.2.1)
      intro hnil
      rw [hnil] at hpre
      simp at hpre
    · rw [parseRanges_stops h (Nat.zero_le _)]
      exact iff_of_true rfl fun hgood => h ⟨by simp, hgood, by simp⟩

/-- The list can be used without a look at the result exactly when the first token is no good or all
are taken. -/
theorem ttPortListParse_iff (undef : Bytes → ℤ) (s : Bytes) : ParsesPorts undef s ↔ NoneOrAll undef s := by
  have hwf := ttPortListParse_wf undef s
  have hne (h : (ttPortListParse undef s).1 = true) : (ttPortListParse undef s).2 ≠ [] := by
    obtain ⟨htok, hall⟩ := (ttPortListParse_accepts undef s).mp h
    intro hnil
    obtain ⟨tok, toks, hs⟩ := List.exists_cons_of_ne_nil htok
    apply (ttPortListParse_empty undef s).mp hnil tok (by rw [hs]; rfl)
    exact hall.good tok (by rw [hs]; exact List.mem_cons_self ..)
  constructor
  · intro h
    cases hacc : (ttPortListParse undef s).1 with
    | true => exact Or.inr ((ttPortListParse_accepts undef s).mp hacc).2
    | false => exact Or.inl ((ttPortListParse_empty undef s).mp (h.rejected hacc))
  · intro h
    refine ⟨fun hacc => ⟨List.length_pos_iff.mpr (hne hacc), hwf.ranges⟩, fun _ => hwf.ports,
      fun _ i hi => ttPortListPort_range hwf.wf hi,
      fun hacc cap hcap => parse_toStr undef hwf (hne hacc) hcap, ?_⟩
    intro hrej
    rw [ttPortListParse_empty]
    rcases h with h | h
    · exact h
    · have hnil : portTokens s = [] := by
        by_contra htok
        rw [(ttPortListParse_accepts undef s).mpr ⟨htok, h⟩] at hrej
        cases hrej
      rw [hnil]
      intro tok htok
      cases htok

namespace Instance

def badSecond : Bytes := [56, 48, 44, 120]

theorem badSecond_keeps : ¬ParsesPorts (fun _ => 0) badSecond := by
  intro h
  have hrej := h.rejected
  revert hrej
  decide +kernel

end Instance

end TkTox
