import TkTox.ResumeFile

/-!
Chat history. The entries of the file follow each other without a separator, and a transcript may
hold text that looks like an entry; the lengths in front of each entry are all the reader goes by.
-/

namespace TkTox

variable {T : ToxEncryptSave} {passKey : Option ToxPassKey} {mem name b rest : Bytes} {ptLen n : ℕ}

abbrev ttHistMaxFile : ℕ := 8 * 1024 * 1024

def ttHistMagic : Bytes := [84, 84, 72, 83, 49]

structure TTHistEntry where
  key : Bytes
  transcript : Bytes

def histEntry (e : TTHistEntry) : Bytes :=
  headerLine e.key.length e.transcript.length ++ e.key ++ 10 :: e.transcript

def histPlain (entries : List TTHistEntry) : Bytes :=
  ttHistMagic ++
    (entries.filter fun e => decide (e.key ≠ [] ∧ e.transcript ≠ [])).flatMap histEntry

def ttHistSave (passKey : Option ToxPassKey) (entries : List TTHistEntry) (file : Option Bytes) :
    Option Bytes × Bool :=
  match sidecarWriteUpTo ttHistMaxFile passKey (histPlain entries) with
  | none => (file, false)
  | some buf => (some buf, true)

inductive HistTurn
  | stop
  | hit (transcript : Bytes)
  | next (rest : Bytes)

def histTurn (ptLen : ℕ) (mem name b : Bytes) : HistTurn :=
  match readHeader (2 ^ 64) mem b with
  | none => .stop
  | some (klen, tlen, b) =>
    if klen > ptLen ∨ tlen > ptLen then .stop
    else if b.length < klen + 1 + tlen then .stop
    else if klen = name.length ∧ b.take klen = name then
      if b.getD klen 0 ≠ 10 then .stop else .hit ((b.drop (klen + 1)).take tlen)
    else .next (b.drop (klen + 1 + tlen))

-- `while (off < pt_len)`; `none` when the turns run out
def histLoop (ptLen : ℕ) (mem name : Bytes) : ℕ → Bytes → Option (Option Bytes)
  | 0, _ => none
  | n + 1, b =>
    if b.length = 0 then some none
    else
      match histTurn ptLen mem name b with
      | .stop => some none
      | .hit t => some (some t)
      | .next rest => histLoop ptLen mem name n rest

structure HistLoaded where
  found : Bool
  out : Bytes
  deriving DecidableEq

def HistLoaded.missing : HistLoaded := ⟨false, []⟩

def histResult (cap : ℕ) : Option Bytes → HistLoaded
  | none => .missing
  | some t => ⟨true, t.take (cap - 1)⟩

def ttHistLoad (T : ToxEncryptSave) (passKey : Option ToxPassKey) (mem : Bytes) (file : Option Bytes)
    (name : Bytes) (cap turns : ℕ) : Option HistLoaded :=
  if cap = 0 then some .missing
  else
    match file with
    | none => some .missing
    | some buf =>
      if buf.length = 0 ∨ buf.length > ttHistMaxFile then some .missing
      else
        match sidecarDecrypt T passKey buf with
        | none => some .missing
        | some pt =>
          if pt.length < 5 ∨ pt.take 5 ≠ ttHistMagic then some .missing
          else (histLoop pt.length mem name turns (pt.drop 5)).map (histResult cap)

theorem histTurn_length (h : histTurn ptLen mem name b = .next rest) : rest.length < b.length := by
  unfold histTurn at h
  split at h
  · cases h
  · next hh =>
    have hlt := readHeader_length hh
    split_ifs at h
    cases h
    rw [List.length_drop]
    omega

theorem histLoop_ends (ptLen : ℕ) (mem name : Bytes) (hn : b.length < n) : ∃ r, histLoop ptLen mem name n b = some r := by
  induction n generalizing b with
  | zero => omega
  | succ n ih =>
    rw [histLoop]
    split_ifs
    · exact ⟨none, rfl⟩
    · cases ht : histTurn ptLen mem name b with
      | stop => exact ⟨none, rfl⟩
      | hit t => exact ⟨some t, rfl⟩
      | next rest => exact ih (by have := histTurn_length ht; omega)

theorem histLoop_mono {r : Option Bytes} (h : histLoop ptLen mem name n b = some r) {k : ℕ}
    (hk : n ≤ k) : histLoop ptLen mem name k b = some r := by
  induction n generalizing b k with
  | zero => cases h
  | succ n ih =>
    obtain ⟨k, rfl⟩ := Nat.exists_eq_add_one_of_ne_zero (by omega : k ≠ 0)
    rw [histLoop] at h ⊢
    split_ifs at h ⊢
    · exact h
    · cases ht : histTurn ptLen mem name b with
      | stop =>
        rw [ht] at h
        exact h
      | hit t =>
        rw [ht] at h
        exact h
      | next rest =>
        rw [ht] at h
        exact ih h (by omega)

theorem ttHistLoad_ends (T : ToxEncryptSave) (passKey : Option ToxPassKey) (mem : Bytes)
    (file : Option Bytes) (name : Bytes) (cap : ℕ) :
    ∃ turns r, ∀ n, turns ≤ n → ttHistLoad T passKey mem file name cap n = some r := by
  by_cases hcap : cap = 0
  · exact ⟨0, .missing, fun n _ => by simp only [ttHistLoad, if_pos hcap]⟩
  cases file with
  | none => exact ⟨0, .missing, fun n _ => by simp only [ttHistLoad, if_neg hcap]⟩
  | some buf =>
    simp only [ttHistLoad, if_neg hcap]
    split_ifs with hsize
    · exact ⟨0, _, fun n _ => rfl⟩
    cases sidecarDecrypt T passKey buf with
    | none => exact ⟨0, _, fun n _ => rfl⟩
    | some pt =>
      dsimp only
      split_ifs with hmagic
      · exact ⟨0, _, fun n _ => rfl⟩
      obtain ⟨r, hr⟩ := histLoop_ends pt.length mem name
        (Nat.lt_succ_self (pt.drop 5).length)
      refine ⟨(pt.drop 5).length.succ, histResult cap r, fun n hn => ?_⟩
      rw [histLoop_mono hr hn, Option.map_some]

structure TTHistEntry.WF (e : TTHistEntry) : Prop where
  key : e.key ≠ []
  keyText : 0 ∉ e.key
  transcript : e.transcript ≠ []
  transcriptText : 0 ∉ e.transcript

variable {e : TTHistEntry} {entries : List TTHistEntry}

theorem histPlain_eq (hwf : ∀ e ∈ entries, e.WF) :
    histPlain entries = ttHistMagic ++ entries.flatMap histEntry := by
  have hkept : entries.filter (fun e => decide (e.key ≠ [] ∧ e.transcript ≠ [])) = entries := by
    rw [List.filter_eq_self]
    intro e he
    exact decide_eq_true ⟨(hwf e he).key, (hwf e he).transcript⟩
  rw [histPlain, hkept]

theorem histEntry_lengths (e : TTHistEntry) :
    e.key.length ≤ (histEntry e).length ∧ e.transcript.length ≤ (histEntry e).length := by
  simp only [histEntry, List.length_append, List.length_cons]
  omega

theorem histTurn_entry (hk : e.key.length ≤ ptLen) (ht : e.transcript.length ≤ ptLen)
    (hpt : ptLen < 2 ^ 64) (mem name rest : Bytes) :
    histTurn ptLen mem name (histEntry e ++ rest) =
      if e.key = name then .hit e.transcript else .next rest := by
  have hsplit : histEntry e ++ rest = headerLine e.key.length e.transcript.length ++
      (e.key ++ (10 :: (e.transcript ++ rest))) := by
    simp [histEntry]
  have hfit : ¬ (e.key ++ (10 :: (e.transcript ++ rest))).length <
      e.key.length + 1 + e.transcript.length := by
    simp only [List.length_append, List.length_cons]
    omega
  have hbreak : (e.key ++ (10 :: (e.transcript ++ rest))).getD e.key.length 0 = 10 := by
    rw [List.getD_append_right _ _ _ _ le_rfl, Nat.sub_self]
    rfl
  have hafter : (e.key ++ (10 :: (e.transcript ++ rest))).drop (e.key.length + 1) =
      e.transcript ++ rest := by
    rw [← List.drop_drop, List.drop_left]
    rfl
  have hnext : (e.key ++ (10 :: (e.transcript ++ rest))).drop
      (e.key.length + 1 + e.transcript.length) = rest := by
    rw [← List.drop_drop, hafter, List.drop_left]
  have hname : (e.key.length = name.length ∧ e.key = name) ↔ e.key = name :=
    ⟨And.right, fun h => ⟨by rw [h], h⟩⟩
  unfold histTurn
  rw [hsplit, readHeader_header (by omega) (by omega), Nat.mod_eq_of_lt (by omega)]
  dsimp only
  rw [if_neg (by omega), if_neg hfit, List.take_left, hbreak, hafter, hnext, List.take_left]
  simp only [hname, ne_eq, not_true_eq_false, if_false]

theorem histLoop_entries (hlen : ∀ e ∈ entries, e.key.length ≤ ptLen ∧ e.transcript.length ≤ ptLen)
    (hpt : ptLen < 2 ^ 64) (hn : entries.length < n) :
    histLoop ptLen mem name n (entries.flatMap histEntry) =
      some ((entries.find? fun e => decide (e.key = name)).map TTHistEntry.transcript) := by
  induction entries generalizing n with
  | nil =>
    obtain ⟨n, rfl⟩ := Nat.exists_eq_add_one_of_ne_zero (by omega : n ≠ 0)
    rfl
  | cons e entries ih =>
    obtain ⟨n, rfl⟩ := Nat.exists_eq_add_one_of_ne_zero (by omega : n ≠ 0)
    rw [List.length_cons] at hn
    obtain ⟨hk, ht⟩ := hlen e (by simp)
    rw [List.flatMap_cons, histLoop, if_neg (by simp [histEntry, headerLine]),
      histTurn_entry hk ht hpt]
    by_cases hname : e.key = name
    · rw [if_pos hname, List.find?_cons_of_pos (by simpa using hname)]
      rfl
    · rw [if_neg hname, List.find?_cons_of_neg (by simpa using hname)]
      exact ih (fun e he => hlen e (by simp [he])) (by omega)

theorem ttHistLoad_save (hT : T.SparesPlain) (hk : ∀ k ∈ passKey, k.Invertible T)
    (hwf : ∀ e ∈ entries, e.WF) (hsize : encryptedLength passKey (histPlain entries) ≤ ttHistMaxFile)
    (old : Option Bytes) : ∃ file, ttHistSave passKey entries old = (some file, true) ∧
      ∀ (mem name : Bytes) (cap n : ℕ), cap ≠ 0 → entries.length < n →
        ttHistLoad T passKey mem (some file) name cap n =
          some (histResult cap
            ((entries.find? fun e => decide (e.key = name)).map TTHistEntry.transcript)) := by
  have hplain : (histPlain entries).length ≤ ttHistMaxFile := le_trans (Nat.le_add_right _ _) hsize
  obtain ⟨file, hw, hlen, hdec⟩ := sidecar_round_trip ttHistMaxFile (histPlain entries)
    hT hk ⟨_, rfl⟩ hplain
  have heq := histPlain_eq hwf
  have hmagic : 5 ≤ (histPlain entries).length := by
    rw [heq, List.length_append]
    simp [ttHistMagic]
  have hfit : ¬ (file.length = 0 ∨ file.length > ttHistMaxFile) := by
    have hpos : (histPlain entries).length ≤ encryptedLength passKey (histPlain entries) :=
      Nat.le_add_right _ _
    omega
  refine ⟨file, by rw [ttHistSave, hw], fun mem name cap n hcap hn => ?_⟩
  have hin : ∀ e ∈ entries, e.key.length ≤ (histPlain entries).length ∧
      e.transcript.length ≤ (histPlain entries).length := by
    intro e he
    have hsub : (histEntry e).length ≤ (histPlain entries).length := by
      rw [heq, List.length_append]
      have hle := (List.sublist_flatten_of_mem (List.mem_map_of_mem (f := histEntry) he)).length_le
      rw [← List.flatMap_def] at hle
      omega
    have h := histEntry_lengths e
    omega
  have hbody : (histPlain entries).take 5 = ttHistMagic ∧
      (histPlain entries).drop 5 = entries.flatMap histEntry := by
    rw [heq]
    exact ⟨List.take_left' rfl, List.drop_left' rfl⟩
  simp only [ttHistLoad, if_neg hcap, if_neg hfit, hdec]
  rw [if_neg (not_or.mpr ⟨by omega, not_not.mpr hbody.1⟩), hbody.2,
    histLoop_entries hin (by simp only [ttHistMaxFile] at hplain; omega) hn, Option.map_some]

theorem history_round_trip (hT : T.SparesPlain) (hk : ∀ k ∈ passKey, k.Invertible T)
    (hwf : ∀ e ∈ entries, e.WF) (hkeys : (entries.map TTHistEntry.key).Nodup)
    (hsize : encryptedLength passKey (histPlain entries) ≤ ttHistMaxFile) (old : Option Bytes)
    (mem : Bytes) {cap : ℕ} (hcap : 0 < cap) :
    (∃ file turns, ttHistSave passKey entries old = (some file, true) ∧ ∀ n, turns ≤ n →
      (∀ e ∈ entries, ttHistLoad T passKey mem (some file) e.key cap n =
        some ⟨true, e.transcript.take (cap - 1)⟩) ∧
      ∀ name ∉ entries.map TTHistEntry.key,
        ttHistLoad T passKey mem (some file) name cap n = some ⟨false, []⟩) ∧
    ∀ (contents mem name : Bytes) (cap : ℕ), ∃ turns r, ∀ n, turns ≤ n →
      ttHistLoad T passKey mem (some contents) name cap n = some r := by
  refine ⟨?_, fun contents mem name cap => ttHistLoad_ends T passKey mem (some contents) name cap⟩
  obtain ⟨file, hsave, hload⟩ := ttHistLoad_save hT hk hwf hsize old
  refine ⟨file, entries.length + 1, hsave, fun n hn => ⟨fun e he => ?_, fun name hname => ?_⟩⟩
  · have hfind : entries.find? (fun x => decide (x.key = e.key)) = some e := by
      cases hf : entries.find? fun x => decide (x.key = e.key) with
      | none =>
        have hnone := List.find?_eq_none.mp hf e he
        simp at hnone
      | some x =>
        have hx := List.find?_some hf
        have hmem := List.mem_of_find?_eq_some hf
        rw [List.inj_on_of_nodup_map hkeys hmem he (of_decide_eq_true hx)]
    rw [hload mem e.key cap n (by omega) (by omega), hfind]
    rfl
  · have hfind : entries.find? (fun x => decide (x.key = name)) = none := by
      rw [List.find?_eq_none]
      intro x hx hkey
      exact hname (List.mem_map.mpr ⟨x, hx, of_decide_eq_true hkey⟩)
    rw [hload mem name cap n (by omega) (by omega), hfind]
    rfl

namespace Instance

def histEntries : List TTHistEntry := [⟨[97], [49, 32, 49, 10, 98, 10, 120]⟩, ⟨[98], [121, 122]⟩]

theorem history_round_trip_imitated : ∃ file turns,
    ttHistSave (some Instance.passKey) histEntries none = (some file, true) ∧
      ttHistLoad encryptSave (some Instance.passKey) [] (some file) [98] 2 turns =
        some ⟨true, [121]⟩ := by
  have hkey : ∀ k ∈ some Instance.passKey, k.Invertible encryptSave := by
    intro k hk
    cases hk
    exact passKey_invertible
  have hwf : ∀ e ∈ histEntries, e.WF := by
    simp only [histEntries, List.mem_cons, List.not_mem_nil, or_false, forall_eq_or_imp, forall_eq]
    exact ⟨⟨by simp, by decide, by simp, by decide⟩, ⟨by simp, by decide, by simp, by decide⟩⟩
  obtain ⟨⟨file, turns, hsave, hload⟩, -⟩ := history_round_trip encryptSave_sparesPlain hkey hwf
    (by decide) (by decide +kernel) none [] (show 0 < 2 by decide)
  exact ⟨file, turns, hsave, (hload turns le_rfl).1 ⟨[98], [121, 122]⟩ (by simp [histEntries])⟩

end Instance

end TkTox
