import TkTox.Bytes

/-!
`savedata_strip_dht` of `tox_thread.c`: a Tor profile is loaded without the DHT sections of its
savedata. The blob is a cookie and a list of sections, all integers little-endian.
-/

namespace TkTox

def u32le (v : ℕ) : Bytes :=
  [UInt8.ofNat v, UInt8.ofNat (v / 256), UInt8.ofNat (v / 256 ^ 2), UInt8.ofNat (v / 256 ^ 3)]

def readU32le (b : Bytes) : ℕ :=
  (b.getD 0 0).toNat + (b.getD 1 0).toNat * 256 + (b.getD 2 0).toNat * 256 ^ 2 +
    (b.getD 3 0).toNat * 256 ^ 3

@[simp] abbrev stateTypeDht : ℕ := 2
@[simp] abbrev stateTypeEnd : ℕ := 255

def globalCookie : Bytes := [0, 0, 0, 0, 0x1f, 0x1b, 0xed, 0x15]

def stripLoop : ℕ → Bytes → Bytes → Bool → Option (Bytes × Bytes × Bool)
  | 0, _, _, _ => none
  | n + 1, rest, out, stripped =>
    if rest.length < 8 then some (rest, out, stripped)
    else
      let slen := readU32le rest
      let scook := readU32le (rest.drop 4)
      if slen > rest.length - 8 then some (rest, out, stripped)
      else
        let type := scook % 2 ^ 16
        let total := (8 + slen) % 2 ^ 32
        if type = stateTypeDht then stripLoop n (rest.drop total) out true
        else if type = stateTypeEnd then some (rest.drop total, out ++ rest.take total, stripped)
        else stripLoop n (rest.drop total) (out ++ rest.take total) stripped

def savedataStripDht (buf : Bytes) : Option (Option Bytes) :=
  if buf.length < 16 then some none
  else if buf.getD 0 0 ≠ 0 then some none
  else if readU32le (buf.drop 4) ≠ 0x15ed1b1f then some none
  else
    match stripLoop (buf.length + 1) (buf.drop 8) (buf.take 8) false with
    | none => none
    | some (rest, out, stripped) => if rest ≠ [] ∨ stripped = false then some none else some (some out)

theorem readU32le_u32le {v : ℕ} (h : v < 2 ^ 32) (rest : Bytes) : readU32le (u32le v ++ rest) = v := by
  simp only [readU32le, u32le, List.cons_append, List.nil_append, List.getD_cons_zero,
    List.getD_cons_succ, UInt8.toNat_ofNat']
  omega

theorem readU32le_lt (b : Bytes) : readU32le b < 2 ^ 32 := by
  have h0 := (b.getD 0 0).toNat_lt
  have h1 := (b.getD 1 0).toNat_lt
  have h2 := (b.getD 2 0).toNat_lt
  have h3 := (b.getD 3 0).toNat_lt
  simp only [readU32le]
  omega

theorem u32le_readU32le {b : Bytes} (h : 4 ≤ b.length) : u32le (readU32le b) = b.take 4 := by
  rcases b with _ | ⟨x, _ | ⟨y, _ | ⟨z, _ | ⟨u, rest⟩⟩⟩⟩
  · simp at h
  · simp at h
  · simp at h
  · simp at h
  have h0 := x.toNat_lt
  have h1 := y.toNat_lt
  have h2 := z.toNat_lt
  have h3 := u.toNat_lt
  simp only [u32le, readU32le, List.getD_cons_zero, List.getD_cons_succ, List.take_succ_cons,
    List.take_zero, List.cons.injEq, and_true]
  refine ⟨?_, ?_, ?_, ?_⟩ <;> rw [← UInt8.toNat_inj, UInt8.toNat_ofNat'] <;> omega

structure Section where
  type : UInt16
  inner : UInt16
  payload : Bytes
  fits : payload.length < 2 ^ 32

namespace Section

variable (s : Section)

def cookie : ℕ := s.inner.toNat * 2 ^ 16 + s.type.toNat

def encode : Bytes := u32le s.payload.length ++ u32le s.cookie ++ s.payload

def isDht : Bool := s.type.toNat = stateTypeDht

def isEnd : Bool := s.type.toNat = stateTypeEnd

theorem encode_length : s.encode.length = 8 + s.payload.length := by
  simp [encode, u32le]
  omega

theorem cookie_lt : s.cookie < 2 ^ 32 := by
  have h1 := s.type.toNat_lt
  have h2 := s.inner.toNat_lt
  rw [cookie]
  omega

theorem cookie_mod : s.cookie % 2 ^ 16 = s.type.toNat := by
  have h1 := s.type.toNat_lt
  rw [cookie]
  omega

theorem read_encode (rest : Bytes) : readU32le (s.encode ++ rest) = s.payload.length ∧
    readU32le ((s.encode ++ rest).drop 4) = s.cookie := by
  constructor
  · rw [encode, List.append_assoc, List.append_assoc]
    exact readU32le_u32le s.fits _
  · have hdrop : (s.encode ++ rest).drop 4 = u32le s.cookie ++ (s.payload ++ rest) := by
      simp [encode, u32le]
    rw [hdrop]
    exact readU32le_u32le s.cookie_lt _

theorem exists_of_header {b : Bytes} (h8 : 8 ≤ b.length) (hlen : readU32le b ≤ b.length - 8) :
    ∃ s : Section, b = s.encode ++ b.drop (8 + readU32le b) := by
  have hlt := readU32le_lt b
  have hc := readU32le_lt (b.drop 4)
  refine ⟨⟨UInt16.ofNat (readU32le (b.drop 4) % 2 ^ 16), UInt16.ofNat (readU32le (b.drop 4) / 2 ^ 16),
    (b.drop 8).take (readU32le b), ?_⟩, ?_⟩
  · rw [List.length_take]
    exact (Nat.min_le_left _ _).trans_lt hlt
  · have hpay : ((b.drop 8).take (readU32le b)).length = readU32le b := by
      rw [List.length_take, List.length_drop, Nat.min_eq_left hlen]
    have hcook : (UInt16.ofNat (readU32le (b.drop 4) / 2 ^ 16)).toNat * 2 ^ 16 +
        (UInt16.ofNat (readU32le (b.drop 4) % 2 ^ 16)).toNat = readU32le (b.drop 4) := by
      simp only [UInt16.toNat_ofNat']
      omega
    rw [encode, cookie]
    dsimp only
    rw [hpay, hcook, u32le_readU32le (by omega), u32le_readU32le (by rw [List.length_drop]; omega),
      ← List.take_add, ← List.take_add, List.take_append_drop]

end Section

def encodeAll (l : List Section) : Bytes := l.flatMap Section.encode

def keptSections (l : List Section) : List Section := l.filter fun s => !s.isDht

def NoEarlyEnd (l : List Section) : Prop := ∀ s ∈ l.dropLast, s.isEnd = false

variable {s : Section} {l : List Section} {n : ℕ} {rest out b : Bytes} {stripped : Bool}

theorem encodeAll_cons : encodeAll (s :: l) = s.encode ++ encodeAll l := rfl

theorem noEarlyEnd_cons : NoEarlyEnd (s :: l) ↔ (l = [] ∨ s.isEnd = false) ∧ NoEarlyEnd l := by
  cases l with
  | nil => simp [NoEarlyEnd]
  | cons r l => simp [NoEarlyEnd]

theorem Section.not_isEnd_of_isDht (h : s.isDht = true) : s.isEnd = false := by
  simp only [isDht, stateTypeDht, decide_eq_true_eq] at h
  simp [isEnd, h]

theorem keptSections_cons : keptSections (s :: l) = if s.isDht then keptSections l else s :: keptSections l := by
  cases h : s.isDht <;> simp [keptSections, h]

theorem stripLoop_section (n : ℕ) (out : Bytes) (stripped : Bool) (hlen : (s.encode ++ rest).length < 2 ^ 32) :
    stripLoop (n + 1) (s.encode ++ rest) out stripped =
      if s.isDht then stripLoop n rest out true
      else if s.isEnd then some (rest, out ++ s.encode, stripped)
      else stripLoop n rest (out ++ s.encode) stripped := by
  obtain ⟨hl, hc⟩ := s.read_encode rest
  have hs := s.encode_length
  rw [List.length_append] at hlen
  have htotal : (8 + s.payload.length) % 2 ^ 32 = s.encode.length := by
    rw [hs]
    exact Nat.mod_eq_of_lt (by omega)
  rw [stripLoop, if_neg (by rw [List.length_append]; omega)]
  simp only [hl, hc, s.cookie_mod, htotal, List.drop_left, List.take_left]
  rw [if_neg (by rw [List.length_append]; omega)]
  simp only [Section.isDht, Section.isEnd, decide_eq_true_eq]

theorem stripLoop_encodeAll (hend : NoEarlyEnd l) (hlen : (encodeAll l).length < 2 ^ 32)
    (hn : (encodeAll l).length < n) : stripLoop n (encodeAll l) out stripped =
      some ([], out ++ encodeAll (keptSections l), stripped || l.any Section.isDht) := by
  induction l generalizing n out stripped with
  | nil =>
    cases n with
    | zero => simp at hn
    | succ n => simp [stripLoop, encodeAll, keptSections]
  | cons s l ih =>
    cases n with
    | zero => simp at hn
    | succ n =>
      obtain ⟨he, hl⟩ := noEarlyEnd_cons.mp hend
      rw [encodeAll_cons] at hlen hn ⊢
      rw [stripLoop_section n out stripped hlen, keptSections_cons]
      have hs := s.encode_length
      rw [List.length_append] at hlen hn
      have hlen' : (encodeAll l).length < 2 ^ 32 := by omega
      have hn' : (encodeAll l).length < n := by omega
      cases hd : s.isDht with
      | true => simp [ih hl hlen' hn', hd]
      | false =>
        simp only [Bool.false_eq_true, if_false]
        cases hx : s.isEnd with
        | true =>
          have hnil : l = [] := he.resolve_right (by simp [hx])
          subst hnil
          simp [encodeAll, keptSections, hd]
        | false =>
          simp [ih hl hlen' hn', hd, encodeAll_cons]

theorem stripLoop_reads (n : ℕ) (rest out : Bytes) (stripped : Bool) (hlen : rest.length < 2 ^ 32) (hn : rest.length < n) :
    ∃ l tail, rest = encodeAll l ++ tail ∧ NoEarlyEnd l ∧ stripLoop n rest out stripped =
      some (tail, out ++ encodeAll (keptSections l), stripped || l.any Section.isDht) := by
  induction n generalizing rest out stripped with
  | zero => omega
  | succ n ih =>
    have hstop (h : stripLoop (n + 1) rest out stripped = some (rest, out, stripped)) :
        ∃ l tail, rest = encodeAll l ++ tail ∧ NoEarlyEnd l ∧ stripLoop (n + 1) rest out stripped =
          some (tail, out ++ encodeAll (keptSections l), stripped || l.any Section.isDht) :=
      ⟨[], rest, rfl, fun s hs => by simp at hs, by simp [h, encodeAll, keptSections]⟩
    by_cases h8 : rest.length < 8
    · apply hstop
      rw [stripLoop, if_pos h8]
    by_cases hcut : readU32le rest > rest.length - 8
    · apply hstop
      rw [stripLoop, if_neg h8]
      exact if_pos hcut
    obtain ⟨s, hs⟩ := Section.exists_of_header (not_lt.mp h8) (not_lt.mp hcut)
    generalize rest.drop (8 + readU32le rest) = rest' at hs
    subst hs
    have hturn := stripLoop_section n out stripped hlen
    have hs := s.encode_length
    rw [List.length_append] at hlen hn
    rw [hturn]
    cases hd : s.isDht with
    | true =>
      obtain ⟨l, tail, rfl, hl, hloop⟩ := ih rest' out true (by omega) (by omega)
      refine ⟨s :: l, tail, by rw [encodeAll_cons, List.append_assoc],
        noEarlyEnd_cons.mpr ⟨Or.inr (Section.not_isEnd_of_isDht hd), hl⟩, ?_⟩
      simp [hloop, keptSections_cons, hd]
    | false =>
      cases hx : s.isEnd with
      | true =>
        refine ⟨[s], rest', by simp [encodeAll], fun r hr => by simp at hr, ?_⟩
        simp [encodeAll, keptSections, hd]
      | false =>
        obtain ⟨l, tail, rfl, hl, hloop⟩ := ih rest' (out ++ s.encode) stripped (by omega) (by omega)
        refine ⟨s :: l, tail, by rw [encodeAll_cons, List.append_assoc],
          noEarlyEnd_cons.mpr ⟨Or.inr hx, hl⟩, ?_⟩
        simp [hloop, keptSections_cons, hd, encodeAll_cons]

/-- A cookie and sections, END exactly at the end. `inner` are the high halves that a section's cookie
word may have. -/
structure Savedata (inner : UInt16 → Prop) (b : Bytes) (l : List Section) : Prop where
  blob : b = globalCookie ++ encodeAll l
  inner : ∀ s ∈ l, inner s.inner
  only : NoEarlyEnd l
  last : ∃ s, l.getLast? = some s ∧ s.isEnd = true

/-- What the code takes for savedata: of the low cookie word it tests one byte, and there need not be
an END section. -/
structure LooseSavedata (b : Bytes) (l : List Section) : Prop where
  low : b.getD 0 0 = 0
  global : readU32le (b.drop 4) = 0x15ed1b1f
  cookie : 8 ≤ b.length
  sections : b.drop 8 = encodeAll l
  only : NoEarlyEnd l

theorem Savedata.loose {inner : UInt16 → Prop} (h : Savedata inner b l) : LooseSavedata b l := by
  obtain ⟨rfl, -, hend, -⟩ := h
  constructor
  · rfl
  · have hword : globalCookie.drop 4 = u32le 0x15ed1b1f := by decide
    rw [List.drop_append_of_le_length (by decide), hword]
    exact readU32le_u32le (by decide) _
  · simp [globalCookie]
  · rfl
  · exact hend

theorem encodeAll_keptSections_length (l : List Section) :
    (encodeAll (keptSections l)).length ≤ (encodeAll l).length := by
  induction l with
  | nil => exact le_rfl
  | cons s l ih =>
    rw [keptSections_cons]
    split_ifs <;> simp only [encodeAll_cons, List.length_append] <;> omega

theorem LooseSavedata.strip (h : LooseSavedata b l) (hlen : b.length < 2 ^ 32) : savedataStripDht b =
    some (if l.any Section.isDht then some (b.take 8 ++ encodeAll (keptSections l)) else none) := by
  have hbody : (encodeAll l).length = b.length - 8 := by rw [← h.sections, List.length_drop]
  have h8 := h.cookie
  rw [savedataStripDht]
  by_cases h16 : b.length < 16
  · have hnil : l = [] := by
      cases l with
      | nil => rfl
      | cons s l =>
        rw [encodeAll_cons, List.length_append, s.encode_length] at hbody
        omega
    simp [hnil, h16]
  · rw [if_neg h16, if_neg (not_not.mpr h.low), if_neg (not_not.mpr h.global), h.sections,
      stripLoop_encodeAll h.only (by omega) (by omega)]
    cases hd : l.any Section.isDht <;> simp

theorem strip_of_not_loose (h : ∀ l, ¬LooseSavedata b l) (hlen : b.length < 2 ^ 32) :
    savedataStripDht b = some none := by
  rw [savedataStripDht]
  split_ifs with h16 h0 hc
  · rfl
  · rfl
  · rfl
  · obtain ⟨l, tail, hb, hend, hloop⟩ := stripLoop_reads (b.length + 1) (b.drop 8) (b.take 8) false
      (by rw [List.length_drop]; omega) (by rw [List.length_drop]; omega)
    rw [hloop]
    have htail : tail ≠ [] := by
      rintro rfl
      rw [List.append_nil] at hb
      exact h l ⟨not_not.mp h0, not_not.mp hc, by omega, hb, hend⟩
    exact if_pos (Or.inl htail)

theorem Savedata.kept {inner : UInt16 → Prop} (h : Savedata inner b l) :
    Savedata inner (globalCookie ++ encodeAll (keptSections l)) (keptSections l) := by
  obtain ⟨s, hs, hx⟩ := h.last
  obtain ⟨init, rfl⟩ := List.getLast?_eq_some_iff.mp hs
  have hkeep : s.isDht = false := by
    cases hd : s.isDht with
    | false => rfl
    | true =>
      rw [Section.not_isEnd_of_isDht hd] at hx
      cases hx
  have hk : keptSections (init ++ [s]) = keptSections init ++ [s] := by simp [keptSections, hkeep]
  constructor
  · rfl
  · intro r hr
    exact h.inner r (List.mem_of_mem_filter hr)
  · rw [hk, NoEarlyEnd, List.dropLast_concat]
    intro r hr
    have honly := h.only r
    rw [List.dropLast_concat] at honly
    exact honly (List.mem_of_mem_filter hr)
  · exact ⟨s, by rw [hk, List.getLast?_concat], hx⟩

theorem any_keptSections (l : List Section) : (keptSections l).any Section.isDht = false := by
  simp [keptSections]

/-- The blob is stripped as savedata is to be: its DHT sections go and nothing else does, any other
bytes are left alone, and the result has nothing left to strip. -/
structure StripsDht (inner : UInt16 → Prop) (b : Bytes) : Prop where
  filter : ∀ l, Savedata inner b l → savedataStripDht b =
    some (if l.any Section.isDht then some (globalCookie ++ encodeAll (keptSections l)) else none)
  other : (∀ l, ¬Savedata inner b l) → savedataStripDht b = some none
  clean : ∀ out, savedataStripDht b = some (some out) →
    (∃ l, Savedata inner out l ∧ ∀ s ∈ l, s.isDht = false) ∧ savedataStripDht out = some none

/-- The blob is savedata, or it is not taken for savedata with a DHT section. -/
def StripsRightly (inner : UInt16 → Prop) (b : Bytes) : Prop :=
  (∃ l, Savedata inner b l) ∨ ¬∃ l, LooseSavedata b l ∧ l.any Section.isDht = true

theorem Savedata.stripsDht {inner : UInt16 → Prop} (h : Savedata inner b l) (hlen : b.length < 2 ^ 32) :
    StripsDht inner b := by
  have hfilter (l : List Section) (h : Savedata inner b l) : savedataStripDht b =
      some (if l.any Section.isDht then some (globalCookie ++ encodeAll (keptSections l)) else none) := by
    have htake : b.take 8 = globalCookie := by rw [h.blob]; rfl
    rw [h.loose.strip hlen, htake]
  refine ⟨hfilter, fun hno => absurd h (hno l), ?_⟩
  intro out hout
  rw [hfilter l h] at hout
  split_ifs at hout with hd
  case neg => cases hout
  obtain rfl := Option.some.inj (Option.some.inj hout)
  refine ⟨⟨keptSections l, h.kept, ?_⟩, ?_⟩
  · simpa using any_keptSections l
  · rw [h.kept.loose.strip, any_keptSections]
    · rfl
    · have := encodeAll_keptSections_length l
      rw [h.blob, List.length_append] at hlen
      rw [List.length_append]
      omega

/-- `savedata_strip_dht` filters the sections of savedata and leaves all else alone, exactly on the
blobs that are savedata or would not pass for savedata with a DHT section. -/
theorem savedataStripDht_iff (inner : UInt16 → Prop) (b : Bytes) (hlen : b.length < 2 ^ 32) :
    StripsDht inner b ↔ StripsRightly inner b := by
  constructor
  · intro h
    by_cases hs : ∃ l, Savedata inner b l
    · exact Or.inl hs
    · right
      rintro ⟨l, hl, hd⟩
      have hnull := h.other (not_exists.mp hs)
      rw [hl.strip hlen, if_pos hd] at hnull
      cases hnull
  · rintro (⟨l, hl⟩ | hno)
    · exact hl.stripsDht hlen
    · have hnull : savedataStripDht b = some none := by
        by_cases hloose : ∃ l, LooseSavedata b l
        · obtain ⟨l, hl⟩ := hloose
          rw [hl.strip hlen, if_neg fun hd => hno ⟨l, hl, hd⟩]
        · exact strip_of_not_loose (not_exists.mp hloose) hlen
      refine ⟨fun l hl => (hl.stripsDht hlen).filter l hl, fun _ => hnull, fun out hout => ?_⟩
      rw [hnull] at hout
      cases hout

namespace Instance

def dhtSection : Section := ⟨2, 0x01ce, [7], by decide⟩

def endSection : Section := ⟨255, 0x01ce, [], by decide⟩

theorem savedataStripDht_iff_dht : StripsDht (· = 0x01ce) (globalCookie ++ encodeAll [dhtSection, endSection]) := by
  apply (savedataStripDht_iff (· = 0x01ce) _ (by decide)).mpr
  refine Or.inl ⟨[dhtSection, endSection], rfl, ?_, ?_, endSection, rfl, rfl⟩
  · intro s hs
    simp only [List.mem_cons, List.not_mem_nil, or_false] at hs
    obtain rfl | rfl := hs <;> rfl
  · intro s hs
    simp only [List.dropLast, List.mem_singleton] at hs
    subst hs
    rfl

def oddCookie : Bytes := [0, 1, 0, 0, 0x1f, 0x1b, 0xed, 0x15] ++ encodeAll [dhtSection, endSection]

theorem oddCookie_stripped : ¬StripsDht (· = 0x01ce) oddCookie := by
  intro h
  have hnull := h.other (by
    intro l hl
    have hbyte := congrArg (fun b => b.getD 1 0) hl.blob
    simp [oddCookie, globalCookie] at hbyte)
  revert hnull
  decide +kernel

end Instance

end TkTox
