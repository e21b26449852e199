import TkTox.Settings

/-!
What the settings file keeps. As long as the e2ee line fits the 512-byte buffer the file is a list
of whole lines, one per group, and each store edits that list; a longer line is cut at the buffer's
end, by the reader and by the stores that copy it.
-/

namespace TkTox

inductive SettingsEntry
  | proxy (p : ProxySetting)
  | history (on : Bool)
  | e2ee (required : E2eeRequired)

namespace SettingsEntry

def line : SettingsEntry → Bytes
  | .proxy p => proxyLine p.host p.port
  | .history on => historyLine on
  | .e2ee required => e2eeLine required

def Fits : SettingsEntry → Prop
  | .e2ee required => enforced required ≠ [] ∧ (e2eeLine required).length ≤ 511
  | _ => True

def proxy? : SettingsEntry → Option ProxySetting
  | .proxy p => some p
  | _ => none

def history? : SettingsEntry → Option Bool
  | .history on => some on
  | _ => none

def e2ee? : SettingsEntry → Option E2eeRequired
  | .e2ee required => some required
  | _ => none

end SettingsEntry

def settingsText (es : List SettingsEntry) : Bytes := es.flatMap SettingsEntry.line

theorem decimal_mem {n : ℕ} {b : UInt8} (hb : b ∈ decimal n) : 48 ≤ b.toNat ∧ b.toNat ≤ 57 := by
  have h := decimal_digits n b hb
  simpa [isDigit, UInt8.le_iff_toNat_le] using h

theorem decimalLd_mem {v : ℤ} {b : UInt8} (hb : b ∈ decimalLd v) :
    b = 45 ∨ (48 ≤ b.toNat ∧ b.toNat ≤ 57) := by
  unfold decimalLd at hb
  split_ifs at hb with hv
  · rcases List.mem_cons.mp hb with rfl | hb
    · exact Or.inl rfl
    · exact Or.inr (decimal_mem hb)
  · exact Or.inr (decimal_mem hb)

theorem decimal_append_nl (n : ℕ) (rest : Bytes) (hrest : ∀ b ∈ rest.head?, isDigit b = false) :
    (decimal n ++ rest).takeWhile isDigit = decimal n ∧
      (decimal n ++ rest).drop (decimal n).length = rest := by
  refine ⟨?_, by simp⟩
  rw [List.takeWhile_append_of_pos (decimal_digits n)]
  cases rest with
  | nil => simp
  | cons c cs => simp [hrest c (by simp)]

theorem scanLd_decimalLd {v : ℤ} (hv : -2 ^ 63 ≤ v ∧ v < 2 ^ 63) :
    scanLd (32 :: (decimalLd v ++ [10])) = some v := by
  obtain ⟨b, ds, hd⟩ := List.exists_cons_of_ne_nil (decimal_ne_nil v.natAbs)
  obtain ⟨hsp, hm, hp⟩ := isDigit_not_space (decimal_digits v.natAbs b (by rw [hd]; simp))
  have htw : (decimal v.natAbs ++ [10]).takeWhile isDigit = decimal v.natAbs :=
    (decimal_append_nl _ [10] (by simp [isDigit])).1
  have hblank : (32 :: (decimalLd v ++ [10])).dropWhile isSpace = decimalLd v ++ [10] := by
    rw [List.dropWhile_cons_of_pos (by decide)]
    unfold decimalLd
    split_ifs
    · rw [List.cons_append, List.dropWhile_cons_of_neg (by decide)]
    · rw [hd, List.cons_append, List.dropWhile_cons_of_neg (by simp [hsp])]
  simp only [scanLd, hblank]
  by_cases hneg : v < 0
  · have he : decimalLd v ++ [10] = 45 :: (decimal v.natAbs ++ [10]) := by
      rw [decimalLd, if_pos hneg]
      rfl
    simp only [he, List.head?_cons, beq_self_eq_true, true_or, if_true, List.tail_cons, htw,
      if_neg (decimal_ne_nil _), strtol, digitsValue_decimal, longMax]
    rw [Nat.min_eq_left (by omega)]
    congr 1
    omega
  · have he : decimalLd v ++ [10] = decimal v.natAbs ++ [10] := by
      rw [decimalLd, if_neg hneg]
    have hhead : (decimal v.natAbs ++ [10]).head? = some b := by rw [hd]; rfl
    have hb : (some b == some (45 : UInt8)) = false := by simp [hm]
    have hsign : ¬ (some b = some (45 : UInt8) ∨ some b = some 43) := by simp [hm, hp]
    simp only [he, hhead, if_neg hsign, htw, if_neg (decimal_ne_nil _), hb, strtol,
      Bool.false_eq_true, if_false, digitsValue_decimal, longMax]
    rw [Nat.min_eq_left (by omega)]
    congr 1
    omega

theorem scanProxy_proxyLine {p : ProxySetting} (hp : p.host ≠ []) :
    scanProxy (proxyLine p.host p.port) = some (p.host, p.port) := by
  obtain ⟨b, hs, hh⟩ := List.exists_cons_of_ne_nil hp
  have hb := (p.host_plain b (by rw [hh]; simp)).1
  have hword : startsWith wordProxy (proxyLine p.host p.port) = true := by
    rw [proxyLine, if_pos hp]
    simp [startsWith, wordProxy, List.isPrefixOf]
  have hdrop : (proxyLine p.host p.port).drop wordProxy.length =
      32 :: (p.host ++ 32 :: (decimalLd p.port ++ [10])) := by
    rw [proxyLine, if_pos hp, List.drop_left]
  have hblank : (32 :: (p.host ++ 32 :: (decimalLd p.port ++ [10]))).dropWhile isSpace =
      p.host ++ 32 :: (decimalLd p.port ++ [10]) := by
    rw [List.dropWhile_cons_of_pos (by decide), hh, List.cons_append,
      List.dropWhile_cons_of_neg (by simp [hb])]
  have hhost : ((p.host ++ 32 :: (decimalLd p.port ++ [10])).take 63).takeWhile (!isSpace ·) =
      p.host := by
    rw [List.take_append, List.take_of_length_le p.host_length,
      List.takeWhile_append_of_pos fun b hb => by simp [(p.host_plain b hb).1]]
    cases hn : 63 - p.host.length with
    | zero => simp
    | succ n => rw [List.take_succ_cons, List.takeWhile_cons_of_neg (by decide), List.append_nil]
  rw [scanProxy, hword, hdrop, scanS]
  simp only [Bool.not_true, Bool.false_eq_true, if_false, hblank, hhost, if_neg hp, List.drop_left]
  rw [scanLd_decimalLd p.port_long]
  rfl

theorem readRequired_numbers {fns : List ℕ} (hf : ∀ fn ∈ fns, fn < 256) {n : ℕ}
    (hn : fns.length < n) (required : E2eeRequired) :
    readRequired n (fns.flatMap (fun fn => 32 :: decimal fn) ++ [10]) required =
      fns.foldl (fun r fn => requireFriend r (fn : ℕ)) required := by
  induction fns generalizing n required with
  | nil =>
    obtain ⟨n, rfl⟩ := Nat.exists_eq_add_one_of_ne_zero (show n ≠ 0 by omega)
    simp [readRequired, isDigit]
  | cons fn fns ih =>
    obtain ⟨n, rfl⟩ := Nat.exists_eq_add_one_of_ne_zero (show n ≠ 0 by omega)
    rw [List.length_cons] at hn
    obtain ⟨b, ds, hd⟩ := List.exists_cons_of_ne_nil (decimal_ne_nil fn)
    have hb : 48 ≤ b.toNat := (decimal_mem (n := fn) (by rw [hd]; simp)).1
    have hb32 : b ≠ 32 := fun he => by subst he; revert hb; decide
    have hb9 : b ≠ 9 := fun he => by subst he; revert hb; decide
    have hskip : ((fn :: fns).flatMap (fun fn => 32 :: decimal fn) ++ [10]).dropWhile
        (fun b => b = 32 || b = 9) =
          decimal fn ++ (fns.flatMap (fun fn => 32 :: decimal fn) ++ [10]) := by
      rw [List.flatMap_cons, List.append_assoc, List.cons_append,
        List.dropWhile_cons_of_pos (by decide), hd, List.cons_append,
        List.dropWhile_cons_of_neg (by simp [hb32, hb9])]
    have hhead : ∀ c ∈ (fns.flatMap (fun fn => 32 :: decimal fn) ++ [10]).head?,
        isDigit c = false := by
      cases fns with
      | nil => simp [isDigit]
      | cons => simp [isDigit]
    obtain ⟨htw, hdrop⟩ := decimal_append_nl fn _ hhead
    have hval : strtol false (decimal fn) = (fn : ℕ) := by
      have := hf fn (by simp)
      simp only [strtol, Bool.false_eq_true, if_false, digitsValue_decimal, longMax]
      rw [Nat.min_eq_left (by omega)]
    rw [readRequired]
    simp only [hskip, htw, hdrop, if_neg (decimal_ne_nil fn), hval]
    rw [ih (fun f hfm => hf f (by simp [hfm])) (by omega), List.foldl_cons]

theorem foldl_requireFriend (fns : List ℕ) (required : E2eeRequired) (k : Fin 256) :
    fns.foldl (fun r fn => requireFriend r (fn : ℕ)) required k =
      (decide (k.val ∈ fns) || required k) := by
  induction fns generalizing required with
  | nil => simp
  | cons fn fns ih =>
    rw [List.foldl_cons, ih, requireFriend]
    by_cases hk : k.val = fn
    · simp [hk]
    · have hk' : ¬ (k.val : ℤ) = (fn : ℕ) := by omega
      simp [hk, hk']

theorem mem_enforced {required : E2eeRequired} {n : ℕ} :
    n ∈ enforced required ↔ ∃ k : Fin 256, required k = true ∧ k.val = n := by
  simp [enforced]

theorem readRequired_e2eeLine {required : E2eeRequired} (h : enforced required ≠ []) :
    readRequired (e2eeLine required).length ((e2eeLine required).drop wordE2ee.length)
      (fun _ => false) = required := by
  have hlt : ∀ fn ∈ enforced required, fn < 256 := by
    intro fn hfn
    obtain ⟨k, -, rfl⟩ := mem_enforced.mp hfn
    exact k.isLt
  have hlen : ∀ l : List ℕ, l.length ≤ (l.flatMap (fun fn => 32 :: decimal fn)).length := by
    intro l
    induction l with
    | nil => simp
    | cons a l ih =>
      rw [List.flatMap_cons, List.length_append, List.length_cons, List.length_cons]
      omega
  have := hlen (enforced required)
  rw [e2eeLine, if_neg h, List.drop_left, readRequired_numbers hlt (by
    rw [List.length_append, List.length_append, wordE2ee, List.length_singleton]
    omega)]
  funext k
  rw [foldl_requireFriend, Bool.or_false, Bool.eq_iff_iff, decide_eq_true_eq, mem_enforced]
  constructor
  · rintro ⟨j, hj, he⟩
    rw [← Fin.ext he]
    exact hj
  · intro hk
    exact ⟨k, hk, rfl⟩

theorem decimalLd_length {v : ℤ} (hv : -2 ^ 63 ≤ v ∧ v < 2 ^ 63) : (decimalLd v).length ≤ 20 := by
  have h := decimal_length_le (n := v.natAbs) (k := 19) (by decide) (by omega)
  unfold decimalLd
  split_ifs
  · rw [List.length_cons]
    omega
  · omega

theorem mem_e2eeLine {required : E2eeRequired} {b : UInt8} (hb : b ∈ e2eeLine required) :
    b = 101 ∨ b = 32 ∨ b = 10 ∨ (48 ≤ b.toNat ∧ b.toNat ≤ 57) := by
  unfold e2eeLine at hb
  split_ifs at hb with h
  · cases hb
  · simp only [wordE2ee, List.mem_append, List.mem_flatMap, List.mem_cons, List.not_mem_nil,
      or_false] at hb
    rcases hb with (rfl | rfl | rfl | rfl) | ⟨fn, -, rfl | hb⟩ | rfl
    · exact Or.inl rfl
    · exact Or.inr (Or.inr (Or.inr (by decide)))
    · exact Or.inl rfl
    · exact Or.inl rfl
    · exact Or.inr (Or.inl rfl)
    · exact Or.inr (Or.inr (Or.inr (decimal_mem hb)))
    · exact Or.inr (Or.inr (Or.inl rfl))

namespace SettingsEntry

theorem line_eq {e : SettingsEntry} (he : e.Fits) : ∃ l, e.line = l ++ [10] ∧ (10 : UInt8) ∉ l := by
  cases e with
  | proxy p =>
    rw [line, proxyLine]
    split_ifs with h
    · refine ⟨wordProxy ++ 32 :: (p.host ++ 32 :: decimalLd p.port), by simp, ?_⟩
      simp only [wordProxy, List.mem_append, List.mem_cons, List.not_mem_nil, or_false]
      rintro ((h | h | h | h | h) | h | h | h | h)
      iterate 6 exact absurd h (by decide)
      · exact absurd (p.host_plain _ h).1 (by decide)
      · exact absurd h (by decide)
      · rcases decimalLd_mem h with h | ⟨h, -⟩
        · exact absurd h (by decide)
        · exact absurd h (by decide)
    · exact ⟨wordNoproxy, rfl, by decide⟩
  | history on =>
    refine ⟨wordHistory ++ 32 :: (if on then wordOn else wordOff), by simp [line, historyLine], ?_⟩
    cases on <;> decide
  | e2ee required =>
    rw [line, e2eeLine, if_neg he.1]
    refine ⟨wordE2ee ++ (enforced required).flatMap (fun fn => 32 :: decimal fn), by simp, ?_⟩
    simp only [wordE2ee, List.mem_append, List.mem_cons, List.not_mem_nil, or_false,
      List.mem_flatMap]
    rintro ((h | h | h | h) | ⟨fn, -, h | h⟩)
    iterate 5 exact absurd h (by decide)
    exact absurd (decimal_mem h).1 (by decide)

theorem line_length {e : SettingsEntry} (he : e.e2ee? = none) : e.line.length ≤ 127 := by
  cases e with
  | proxy p =>
    have h1 := decimalLd_length p.port_long
    have h2 := p.host_length
    rw [line, proxyLine]
    split_ifs
    · simp only [wordProxy, List.length_append, List.length_cons, List.length_nil]
      omega
    · decide
  | history on => cases on <;> decide
  | e2ee required => cases he

theorem line_length_fits {e : SettingsEntry} (he : e.Fits) : e.line.length ≤ 511 := by
  cases e with
  | proxy p => exact (line_length rfl).trans (by decide)
  | history on => exact (line_length rfl).trans (by decide)
  | e2ee required => exact he.2

theorem lines_whole {e : SettingsEntry} (he : e.Fits) {size : ℕ} (hs : e.line.length ≤ size - 1) :
    fgetsLines size e.line = [e.line] := by
  obtain ⟨l, hl, hn⟩ := line_eq he
  rw [hl] at hs ⊢
  exact fgetsLines_fit hn (by simpa using hs)

end SettingsEntry

variable {es : List SettingsEntry} {size : ℕ}

theorem fgetsLines_text (hs : 2 ≤ size) (hes : ∀ e ∈ es, e.Fits) :
    fgetsLines size (settingsText es) = es.flatMap fun e => fgetsLines size e.line := by
  induction es with
  | nil => simp [settingsText, fgetsLines, fgetsLoop]
  | cons e es ih =>
    obtain ⟨l, hl, hn⟩ := SettingsEntry.line_eq (hes e (by simp))
    have h := fgetsLines_append hs hn (settingsText es)
    rw [settingsText, List.flatMap_cons, List.flatMap_cons, hl, ← settingsText, h,
      ih fun e he => hes e (by simp [he])]

-- No piece of an e2ee line is taken for a line of another group.
theorem e2ee_piece {required : E2eeRequired} (he : (SettingsEntry.e2ee required).Fits)
    (hs : 2 ≤ size) {p : Bytes} (hp : p ∈ fgetsLines size (e2eeLine required)) :
    startsWith wordProxy p = false ∧ startsWith wordNoproxy p = false ∧
      startsWith wordHistory p = false := by
  obtain ⟨l, hl, hn⟩ := SettingsEntry.line_eq he
  have hline : e2eeLine required = l ++ [10] := hl
  rw [hline] at hp
  obtain ⟨hne, hmem⟩ := mem_of_fgetsLines hs hn hp
  obtain ⟨b, p, rfl⟩ := List.exists_cons_of_ne_nil hne
  have hb : b = 101 ∨ b = 32 ∨ b = 10 ∨ (48 ≤ b.toNat ∧ b.toNat ≤ 57) := by
    refine @mem_e2eeLine required b ?_
    rw [hline]
    exact hmem b (by simp)
  have hnot (c : UInt8) (hc : 57 < c.toNat) (hc' : c ≠ 101) : (c == b) = false := by
    rw [beq_eq_false_iff_ne]
    rintro rfl
    rcases hb with h | h | h | h
    · exact hc' h
    · subst h
      exact absurd hc (by decide)
    · subst h
      exact absurd hc (by decide)
    · omega
  simp [startsWith, wordProxy, wordNoproxy, wordHistory, List.isPrefixOf,
    hnot 112 (by decide) (by decide), hnot 110 (by decide) (by decide),
    hnot 104 (by decide) (by decide)]

theorem keptLines_text {words : List Bytes} {keep : SettingsEntry → Bool} (hs : 2 ≤ size)
    (hes : ∀ e ∈ es, e.Fits)
    (hkeep : ∀ e ∈ es, ((fgetsLines size e.line).filter fun l => words.any (startsWith · l)).flatten =
      if keep e then e.line else []) :
    keptLines size words (some (settingsText es)) = settingsText (es.filter keep) := by
  simp only [keptLines]
  rw [fgetsLines_text hs hes, List.filter_flatMap]
  clear hes
  induction es with
  | nil => rfl
  | cons e es ih =>
    rw [List.flatMap_cons, List.flatten_append, hkeep e (by simp),
      ih fun e he => hkeep e (by simp [he]), List.filter_cons]
    split_ifs
    · rw [settingsText, settingsText, List.flatMap_cons]
    · rfl

theorem kept_whole {e : SettingsEntry} (he : e.Fits) (hl : e.line.length ≤ size - 1)
    {words : List Bytes} {keep : Bool} (h : words.any (startsWith · e.line) = keep) :
    ((fgetsLines size e.line).filter fun l => words.any (startsWith · l)).flatten =
      if keep then e.line else [] := by
  rw [SettingsEntry.lines_whole he hl, List.filter_singleton, h]
  cases keep <;> simp

theorem proxyLine_words (p : ProxySetting) :
    (startsWith wordProxy (proxyLine p.host p.port) = true ∨
      startsWith wordNoproxy (proxyLine p.host p.port) = true) ∧
    startsWith wordHistory (proxyLine p.host p.port) = false ∧
    startsWith wordE2ee (proxyLine p.host p.port) = false := by
  rw [proxyLine]
  split_ifs
  · simp [startsWith, wordProxy, wordNoproxy, wordHistory, wordE2ee, List.isPrefixOf]
  · decide

theorem historyLine_words (on : Bool) :
    startsWith wordProxy (historyLine on) = false ∧
    startsWith wordNoproxy (historyLine on) = false ∧
    startsWith wordHistory (historyLine on) = true ∧
    startsWith wordE2ee (historyLine on) = false := by
  cases on <;> decide

theorem e2eeLine_words {required : E2eeRequired} (h : enforced required ≠ []) :
    startsWith wordE2ee (e2eeLine required) = true := by
  rw [e2eeLine, if_neg h]
  simp [startsWith, wordE2ee, List.isPrefixOf]

theorem keptLines_proxy (hes : ∀ e ∈ es, e.Fits) :
    keptLines 512 [wordHistory, wordE2ee] (some (settingsText es)) =
      settingsText (es.filter fun e => e.proxy?.isNone) := by
  refine keptLines_text (by decide) hes fun e he => ?_
  apply kept_whole (hes e he) (SettingsEntry.line_length_fits (hes e he))
  cases e with
  | proxy p =>
    have h := proxyLine_words p
    simp [SettingsEntry.line, SettingsEntry.proxy?, h.2.1, h.2.2]
  | history on => simp [SettingsEntry.line, SettingsEntry.proxy?, (historyLine_words on).2.2.1]
  | e2ee required =>
    simp [SettingsEntry.line, SettingsEntry.proxy?, e2eeLine_words (hes _ he).1]

theorem keptLines_history (hes : ∀ e ∈ es, e.Fits) :
    keptLines 512 [wordProxy, wordNoproxy, wordE2ee] (some (settingsText es)) =
      settingsText (es.filter fun e => e.history?.isNone) := by
  refine keptLines_text (by decide) hes fun e he => ?_
  apply kept_whole (hes e he) (SettingsEntry.line_length_fits (hes e he))
  cases e with
  | proxy p =>
    rcases (proxyLine_words p).1 with h | h <;> simp [SettingsEntry.line, SettingsEntry.history?, h]
  | history on =>
    have h := historyLine_words on
    simp [SettingsEntry.line, SettingsEntry.history?, h.1, h.2.1, h.2.2.2]
  | e2ee required =>
    simp [SettingsEntry.line, SettingsEntry.history?, e2eeLine_words (hes _ he).1]

theorem keptLines_e2ee (hes : ∀ e ∈ es, e.Fits) :
    keptLines 128 [wordProxy, wordNoproxy, wordHistory] (some (settingsText es)) =
      settingsText (es.filter fun e => e.e2ee?.isNone) := by
  refine keptLines_text (by decide) hes fun e he => ?_
  cases e with
  | proxy p =>
    apply kept_whole (hes _ he) (SettingsEntry.line_length rfl)
    rcases (proxyLine_words p).1 with h | h <;> simp [SettingsEntry.line, SettingsEntry.e2ee?, h]
  | history on =>
    apply kept_whole (hes _ he) (SettingsEntry.line_length rfl)
    simp [SettingsEntry.line, SettingsEntry.e2ee?, (historyLine_words on).2.2.1]
  | e2ee required =>
    -- the 128-byte buffer cuts a long e2ee line, but every piece is dropped
    have hnil : (fgetsLines 128 (SettingsEntry.e2ee required).line).filter
        (fun l => [wordProxy, wordNoproxy, wordHistory].any (startsWith · l)) = [] := by
      rw [List.filter_eq_nil_iff]
      intro p hp
      have h := e2ee_piece (hes _ he) (by decide) hp
      simp [h.1, h.2.1, h.2.2]
    rw [hnil]
    rfl

/-! ### Loading -/

theorem SettingsEntry.others_of_proxy {e : SettingsEntry} (h : e.proxy?.isNone = false) :
    e.history? = none ∧ e.e2ee? = none := by
  cases e with
  | proxy p => exact ⟨rfl, rfl⟩
  | history on => cases h
  | e2ee required => cases h

theorem SettingsEntry.others_of_history {e : SettingsEntry} (h : e.history?.isNone = false) :
    e.proxy? = none ∧ e.e2ee? = none := by
  cases e with
  | proxy p => cases h
  | history on => exact ⟨rfl, rfl⟩
  | e2ee required => cases h

theorem SettingsEntry.others_of_e2ee {e : SettingsEntry} (h : e.e2ee?.isNone = false) :
    e.proxy? = none ∧ e.history? = none := by
  cases e with
  | proxy p => cases h
  | history on => cases h
  | e2ee required => exact ⟨rfl, rfl⟩

def SettingsEntry.load (s : TTSettings) : SettingsEntry → TTSettings
  | .proxy p =>
    if p.host = [] then s else { s with proxySet := true, proxyHost := p.host, proxyPort := p.port }
  | .history on => { s with history := on }
  | .e2ee _ => s

theorem settingsLine_proxyLine (s : TTSettings) (p : ProxySetting) :
    settingsLine s (proxyLine p.host p.port) = SettingsEntry.load s (.proxy p) := by
  by_cases hp : p.host = []
  · rw [SettingsEntry.load, if_pos hp, proxyLine, if_neg (by simpa using hp)]
    rfl
  · rw [settingsLine, scanProxy_proxyLine hp, SettingsEntry.load, if_neg hp]

theorem settingsLine_historyLine (s : TTSettings) (on : Bool) :
    settingsLine s (historyLine on) = { s with history := on } := by
  have hscan : scanProxy (historyLine on) = none := by cases on <;> decide
  have hval : (scanHistory (historyLine on)) = some (if on then wordOn else wordOff) := by
    cases on <;> decide
  rw [settingsLine, hscan, (historyLine_words on).2.2.1, hval]
  cases on <;> rfl

theorem settingsLine_other {s : TTSettings} {l : Bytes} (h1 : startsWith wordProxy l = false)
    (h2 : startsWith wordHistory l = false) : settingsLine s l = s := by
  rw [settingsLine, scanProxy, h1]
  simp [h2]

theorem ttSettingsLoad_text (hes : ∀ e ∈ es, e.Fits) :
    ttSettingsLoad (some (settingsText es)) = es.foldl SettingsEntry.load .zero := by
  simp only [ttSettingsLoad]
  rw [fgetsLines_text (by decide) hes, List.foldl_flatMap]
  generalize TTSettings.zero = s
  induction es generalizing s with
  | nil => rfl
  | cons e es ih =>
    rw [List.foldl_cons, List.foldl_cons, ih fun e he => hes e (by simp [he])]
    congr 1
    have hfit := hes e (by simp)
    cases e with
    | proxy p =>
      rw [SettingsEntry.lines_whole hfit (SettingsEntry.line_length rfl)]
      exact settingsLine_proxyLine s p
    | history on =>
      rw [SettingsEntry.lines_whole hfit (SettingsEntry.line_length rfl)]
      exact settingsLine_historyLine s on
    | e2ee required =>
      have hall : ∀ l ∈ fgetsLines 128 (SettingsEntry.e2ee required).line, settingsLine s l = s := by
        intro l hl
        have h := e2ee_piece hfit (by decide) hl
        exact settingsLine_other h.1 h.2.2
      rw [SettingsEntry.load]
      generalize fgetsLines 128 (SettingsEntry.e2ee required).line = ls at hall
      induction ls with
      | nil => rfl
      | cons l ls ih2 =>
        rw [List.foldl_cons, hall l (by simp)]
        exact ih2 fun l hl => hall l (by simp [hl])

theorem ttSettingsLoadE2ee_text (hes : ∀ e ∈ es, e.Fits) :
    ttSettingsLoadE2ee (some (settingsText es)) =
      (es.filterMap SettingsEntry.e2ee?).head?.getD fun _ => false := by
  have hlines : fgetsLines 512 (settingsText es) = es.map SettingsEntry.line := by
    rw [fgetsLines_text (by decide) hes, List.map_eq_flatMap]
    exact List.flatMap_congr fun e he =>
      SettingsEntry.lines_whole (hes e he) (SettingsEntry.line_length_fits (hes e he))
  simp only [ttSettingsLoadE2ee, hlines]
  induction es with
  | nil => rfl
  | cons e es ih =>
    have ih' := ih (fun e he => hes e (by simp [he])) (by
      rw [fgetsLines_text (by decide) fun e he => hes e (by simp [he]), List.map_eq_flatMap]
      exact List.flatMap_congr fun e he => SettingsEntry.lines_whole (hes e (by simp [he]))
        (SettingsEntry.line_length_fits (hes e (by simp [he]))))
    rw [List.map_cons, List.find?_cons]
    cases e with
    | proxy p =>
      have h := (proxyLine_words p).2.2
      rw [SettingsEntry.line, h]
      exact ih'
    | history on =>
      have h := (historyLine_words on).2.2.2
      rw [SettingsEntry.line, h]
      exact ih'
    | e2ee required =>
      have hne := (hes (.e2ee required) (by simp)).1
      rw [SettingsEntry.line, e2eeLine_words hne]
      exact readRequired_e2eeLine hne

theorem foldl_load (es : List SettingsEntry) (s : TTSettings) :
    es.foldl SettingsEntry.load s = (es.filterMap SettingsEntry.history?).foldl
      (fun s on => SettingsEntry.load s (.history on))
      ((es.filterMap SettingsEntry.proxy?).foldl (fun s p => SettingsEntry.load s (.proxy p)) s) := by
  have hcomm (ps : List ProxySetting) (s : TTSettings) (on : Bool) :
      ps.foldl (fun s p => SettingsEntry.load s (.proxy p)) (SettingsEntry.load s (.history on)) =
        SettingsEntry.load (ps.foldl (fun s p => SettingsEntry.load s (.proxy p)) s) (.history on) := by
    induction ps generalizing s with
    | nil => rfl
    | cons p ps ih =>
      rw [List.foldl_cons, List.foldl_cons, ← ih]
      congr 1
      simp only [SettingsEntry.load]
      split_ifs <;> rfl
  induction es generalizing s with
  | nil => rfl
  | cons e es ih =>
    rw [List.foldl_cons, ih]
    cases e with
    | proxy p => rfl
    | history on =>
      rw [hcomm]
      rfl
    | e2ee required => rfl

structure SettingsInv (file : Option Bytes) (st : StoredSettings) (es : List SettingsEntry) : Prop where
  text : file.getD [] = settingsText es
  fits : ∀ e ∈ es, e.Fits
  proxies : es.filterMap SettingsEntry.proxy? = st.proxy.toList
  histories : (es.filterMap SettingsEntry.history? = [] ∧ st.history = false) ∨
    es.filterMap SettingsEntry.history? = [st.history]
  e2ees : es.filterMap SettingsEntry.e2ee? =
    if enforced st.required = [] then [] else [st.required]

-- What the code needs of a store: an e2ee line must fit `fgets`' 512-byte buffer.
def SettingsOp.Fits : SettingsOp → Prop
  | .storeE2ee required => (e2eeLine required).length < 512
  | _ => True

namespace SettingsInv

variable {file : Option Bytes} {st : StoredSettings}

theorem keptLines_eq (h : SettingsInv file st es) (words : List Bytes) :
    keptLines size words file = keptLines size words (some (settingsText es)) := by
  rw [← h.text]
  cases file <;> rfl

theorem filterMap_filter {α : Type} (f : SettingsEntry → Option α) (keep : SettingsEntry → Bool)
    (es : List SettingsEntry) (h : ∀ e, keep e = false → f e = none) :
    (es.filter keep).filterMap f = es.filterMap f := by
  rw [List.filterMap_filter]
  refine List.filterMap_congr fun e _ => ?_
  split_ifs with hk
  · rfl
  · exact (h e (by simpa using hk)).symm

theorem filterMap_dropped {α : Type} (f : SettingsEntry → Option α) (es : List SettingsEntry) :
    (es.filter fun e => (f e).isNone).filterMap f = [] := by
  rw [List.filterMap_eq_nil_iff]
  intro e he
  simpa using (List.mem_filter.mp he).2

theorem storeProxy (h : SettingsInv file st es) (p : ProxySetting) :
    SettingsInv (settingsStep file (.storeProxy p)) (storedStep st (.storeProxy p))
      (.proxy p :: es.filter fun e => e.proxy?.isNone) where
  text := by
    rw [settingsStep, Option.getD_some, ttSettingsStoreProxy, h.keptLines_eq, keptLines_proxy h.fits]
    rfl
  fits := by
    intro e he
    rcases List.mem_cons.mp he with rfl | he
    · trivial
    · exact h.fits e (List.mem_filter.mp he).1
  proxies := by
    rw [List.filterMap_cons, filterMap_dropped]
    rfl
  histories := by
    rw [List.filterMap_cons_none rfl, filterMap_filter _ _ _ fun e he => (SettingsEntry.others_of_proxy he).1]
    exact h.histories
  e2ees := by
    rw [List.filterMap_cons_none rfl, filterMap_filter _ _ _ fun e he => (SettingsEntry.others_of_proxy he).2]
    exact h.e2ees

theorem storeHistory (h : SettingsInv file st es) (on : Bool) :
    SettingsInv (settingsStep file (.storeHistory on)) (storedStep st (.storeHistory on))
      ((es.filter fun e => e.history?.isNone) ++ [.history on]) where
  text := by
    rw [settingsStep, Option.getD_some, ttSettingsStoreHistory, h.keptLines_eq,
      keptLines_history h.fits]
    simp [settingsText, SettingsEntry.line]
  fits := by
    intro e he
    rcases List.mem_append.mp he with he | he
    · exact h.fits e (List.mem_filter.mp he).1
    · rw [List.mem_singleton.mp he]
      trivial
  proxies := by
    rw [List.filterMap_append,
      filterMap_filter _ _ _ fun e he => (SettingsEntry.others_of_history he).1, h.proxies]
    simp [SettingsEntry.proxy?, storedStep]
  histories := by
    right
    rw [List.filterMap_append, filterMap_dropped]
    rfl
  e2ees := by
    rw [List.filterMap_append,
      filterMap_filter _ _ _ fun e he => (SettingsEntry.others_of_history he).2, h.e2ees]
    exact List.append_nil _

def e2eeEntries (required : E2eeRequired) : List SettingsEntry :=
  if enforced required = [] then [] else [.e2ee required]

theorem storeE2ee (h : SettingsInv file st es) {required : E2eeRequired}
    (hr : (e2eeLine required).length < 512) :
    SettingsInv (settingsStep file (.storeE2ee required)) (storedStep st (.storeE2ee required))
      ((es.filter fun e => e.e2ee?.isNone) ++ e2eeEntries required) where
  text := by
    rw [settingsStep, Option.getD_some, ttSettingsStoreE2ee, h.keptLines_eq, keptLines_e2ee h.fits,
      settingsText, settingsText, List.flatMap_append]
    congr 1
    unfold e2eeEntries
    split_ifs with hn
    · simp [e2eeLine, hn]
    · simp [SettingsEntry.line]
  fits := by
    intro e he
    rcases List.mem_append.mp he with he | he
    · exact h.fits e (List.mem_filter.mp he).1
    · unfold e2eeEntries at he
      split_ifs at he with hn
      · cases he
      · rw [List.mem_singleton.mp he]
        exact ⟨hn, by omega⟩
  proxies := by
    rw [List.filterMap_append,
      filterMap_filter _ _ _ fun e he => (SettingsEntry.others_of_e2ee he).1, h.proxies]
    unfold e2eeEntries
    split_ifs <;> simp [SettingsEntry.proxy?, storedStep]
  histories := by
    have he : (e2eeEntries required).filterMap SettingsEntry.history? = [] := by
      unfold e2eeEntries
      split_ifs <;> simp [SettingsEntry.history?]
    rw [List.filterMap_append,
      filterMap_filter _ _ _ fun e he => (SettingsEntry.others_of_e2ee he).2, he, List.append_nil]
    exact h.histories
  e2ees := by
    rw [List.filterMap_append, filterMap_dropped, List.nil_append]
    change (e2eeEntries required).filterMap SettingsEntry.e2ee? =
      if enforced required = [] then [] else [required]
    unfold e2eeEntries
    split_ifs <;> rfl

theorem step (h : SettingsInv file st es) (op : SettingsOp) (hop : op.Fits) :
    ∃ es', SettingsInv (settingsStep file op) (storedStep st op) es' := by
  cases op with
  | storeProxy p => exact ⟨_, h.storeProxy p⟩
  | storeHistory on => exact ⟨_, h.storeHistory on⟩
  | storeE2ee required => exact ⟨_, h.storeE2ee hop⟩

theorem load (h : SettingsInv file st es) : ttSettingsLoad file = st.settings := by
  have hfile : ttSettingsLoad file = ttSettingsLoad (some (settingsText es)) := by
    rw [← h.text]
    cases file <;> rfl
  rw [hfile, ttSettingsLoad_text h.fits, foldl_load, h.proxies]
  have hproxy : st.proxy.toList.foldl (fun s p => SettingsEntry.load s (.proxy p)) .zero =
      { st.settings with history := false } := by
    unfold StoredSettings.settings
    cases st.proxy with
    | none => rfl
    | some p =>
      simp only [Option.toList_some, List.foldl_cons, List.foldl_nil, SettingsEntry.load]
      split_ifs <;> rfl
  have hhist : st.settings.history = st.history := by
    unfold StoredSettings.settings
    cases st.proxy with
    | none => rfl
    | some p =>
      dsimp only
      split_ifs <;> rfl
  rw [hproxy]
  rcases h.histories with ⟨hn, hf⟩ | hs
  · rw [hn, List.foldl_nil, ← hf, ← hhist]
  · rw [hs, List.foldl_cons, List.foldl_nil, SettingsEntry.load, ← hhist]

theorem loadE2ee (h : SettingsInv file st es) : ttSettingsLoadE2ee file = st.required := by
  have hfile : ttSettingsLoadE2ee file = ttSettingsLoadE2ee (some (settingsText es)) := by
    rw [← h.text]
    cases file <;> rfl
  rw [hfile, ttSettingsLoadE2ee_text h.fits, h.e2ees]
  split_ifs with hn
  · funext k
    by_contra hk
    have hm : k.val ∈ enforced st.required := mem_enforced.mpr ⟨k, by simpa using Ne.symm hk, rfl⟩
    rw [hn] at hm
    cases hm
  · rfl

end SettingsInv

theorem settingsRun_inv (ops : List SettingsOp) (h : ∀ op ∈ ops, op.Fits) :
    ∃ es, SettingsInv (settingsRun ops) (stored ops) es := by
  induction ops using List.reverseRecOn with
  | nil =>
    refine ⟨[], rfl, by simp, rfl, Or.inl ⟨rfl, rfl⟩, ?_⟩
    rw [if_pos (by decide)]
    rfl
  | append_singleton ops op ih =>
    obtain ⟨es, hes⟩ := ih fun o ho => h o (by simp [ho])
    rw [settingsRun, stored, List.foldl_append, List.foldl_append]
    exact hes.step op (h op (by simp))

theorem settings_kept (ops : List SettingsOp) (h : ∀ op ∈ ops, op.Fits) : SettingsKept ops := by
  obtain ⟨es, hes⟩ := settingsRun_inv ops h
  exact ⟨hes.load, hes.loadE2ee⟩

namespace Instance

def localProxy : ProxySetting where
  host := [49, 50, 55, 46, 48, 46, 48, 46, 49]
  port := 9050
  host_length := by decide
  host_plain := by simp [isSpace]
  port_long := by decide

def someEnforced : E2eeRequired := fun fn => decide (fn.val = 3 ∨ fn.val = 200)

-- With all 256 friends enforced the e2ee line has 919 bytes. Read back, the 512-byte buffer ends
-- inside a number; copied by a store, the line loses its end and its newline, and the history line
-- is glued to it.
theorem all_enforced_cut :
    ttSettingsLoadE2ee (settingsRun [.storeE2ee fun _ => true]) 255 = false ∧
      (ttSettingsLoad (settingsRun [.storeE2ee fun _ => true, .storeHistory true])).history = false ∧
      ¬ SettingsKept [.storeE2ee fun _ => true] ∧
      ¬ SettingsKept [.storeE2ee fun _ => true, .storeHistory true] := by
  have h1 : ttSettingsLoadE2ee (settingsRun [.storeE2ee fun _ => true]) 255 = false := by
    decide +kernel
  have h2 : (ttSettingsLoad
      (settingsRun [.storeE2ee fun _ => true, .storeHistory true])).history = false := by
    decide +kernel
  refine ⟨h1, h2, fun h => ?_, fun h => ?_⟩
  · rw [h.2] at h1
    cases h1
  · rw [h.1] at h2
    cases h2

end Instance

theorem settings_kept_three :
    SettingsKept [.storeE2ee Instance.someEnforced, .storeProxy Instance.localProxy,
      .storeHistory true] := by
  apply settings_kept
  intro op hop
  simp only [List.mem_cons, List.not_mem_nil, or_false] at hop
  rcases hop with rfl | rfl | rfl
  · show (e2eeLine Instance.someEnforced).length < 512
    decide +kernel
  · trivial
  · trivial

end TkTox
