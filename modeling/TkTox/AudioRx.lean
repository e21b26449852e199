import Mathlib.Data.List.Basic
import Mathlib.Tactic

/-!
`audio_rx_convert` of `av.c`: received PCM of any channel count and sampling rate, folded to mono and
resampled to the 48 kHz of the playback ring.
-/

namespace TkTox

@[simp] abbrev ttAudioFrameFrames : ℕ := 960
@[simp] abbrev ttAudioRxMaxSamples : ℕ := 50 * ttAudioFrameFrames

def int32 (x : ℤ) : Option ℤ := if -2 ^ 31 ≤ x ∧ x < 2 ^ 31 then some x else none

def fill (f : ℕ → Option Int16) : ℕ → Option (List Int16)
  | 0 => some []
  | i + 1 => do
    let a ← fill f i
    let x ← f i
    if i < ttAudioRxMaxSamples then some (a ++ [x]) else none

def channelSum (pcm : List Int16) (channels i : ℕ) : ℕ → Option ℤ
  | 0 => some 0
  | c + 1 => do
    let acc ← channelSum pcm channels i c
    let x ← pcm[i * channels + c]?
    int32 (acc + x.toInt)

def monoSample (pcm : List Int16) (channels i : ℕ) : Option Int16 := do
  let acc ← channelSum pcm channels i channels
  some (Int16.ofInt (acc.tdiv channels))

def nextSample (mono : List Int16) (n p : ℕ) (a : Int16) : Option Int16 :=
  if p + 1 < n then mono[p + 1]? else some a

def interpolate (mono : List Int16) (n rate i : ℕ) : Option Int16 := do
  let num : ℕ := i * rate % 2 ^ 64
  let p : ℕ := num / 48000
  let fr : ℕ := num % 48000
  let a ← mono[p]?
  let b ← nextSample mono n p a
  let d ← int32 (((b.toInt - a.toInt) * fr).tdiv 48000)
  let x ← int32 (a.toInt + d)
  some (Int16.ofInt x)

def pushFrames (out : List Int16) : ℕ → Option (List (List Int16))
  | 0 => some []
  | f + 1 => do
    let fs ← pushFrames out f
    if (f + 1) * ttAudioFrameFrames ≤ out.length then
      some (fs ++ [(out.drop (f * ttAudioFrameFrames)).take ttAudioFrameFrames])
    else none

structure AudioRx where
  mono : List Int16
  out : List Int16
  pushed : List (List Int16)
deriving DecidableEq

def audioIn (samples channels : ℕ) : ℕ := min (samples / channels) ttAudioRxMaxSamples

def audioOut (n rate : ℕ) : ℕ :=
  if rate = 48000 then n else min (n * 48000 % 2 ^ 64 / rate) ttAudioRxMaxSamples

def audioRxConvert (pcm : List Int16) (channels : UInt8) (rate : UInt32) : Option AudioRx :=
  if rate = 0 ∨ channels = 0 then some ⟨[], [], []⟩
  else do
    let n := audioIn pcm.length channels.toNat
    let mono ← fill (monoSample pcm channels.toNat) n
    let out ←
      if rate.toNat ≠ 48000 then fill (interpolate mono n rate.toNat) (audioOut n rate.toNat)
      else some mono
    let pushed ← pushFrames out (audioOut n rate.toNat / ttAudioFrameFrames)
    some ⟨mono, out, pushed⟩

theorem int32_eq {x : ℤ} (h : -2 ^ 31 ≤ x) (h' : x < 2 ^ 31) : int32 x = some x := if_pos ⟨h, h'⟩

theorem fill_spec {f : ℕ → Option Int16} {P : ℕ → Int16 → Prop} {n : ℕ} (hn : n ≤ ttAudioRxMaxSamples)
    (hf : ∀ i < n, ∃ x, f i = some x ∧ P i x) :
    ∃ a, fill f n = some a ∧ a.length = n ∧ ∀ i x, a[i]? = some x → P i x := by
  induction n with
  | zero => exact ⟨[], rfl, rfl, fun i x h => by simp at h⟩
  | succ n ih =>
    obtain ⟨a, ha, hl, hP⟩ := ih (Nat.le_of_succ_le hn) fun i hi => hf i (Nat.lt_succ_of_lt hi)
    obtain ⟨x, hx, hPx⟩ := hf n (Nat.lt_succ_self n)
    refine ⟨a ++ [x], ?_, ?_, ?_⟩
    · simp only [fill, ha, hx, Option.bind_eq_bind, Option.bind_some]
      exact if_pos hn
    · rw [List.length_append, hl, List.length_singleton]
    · intro i y hy
      by_cases hi : i < a.length
      · rw [List.getElem?_append_left hi] at hy
        exact hP i y hy
      · rw [List.getElem?_append_right (not_lt.mp hi), List.getElem?_singleton] at hy
        split_ifs at hy with h0
        cases hy
        have hin : i = n := by omega
        rw [hin]
        exact hPx

theorem pushFrames_spec {out : List Int16} {n : ℕ} (hn : n * ttAudioFrameFrames ≤ out.length) :
    ∃ fs, pushFrames out n = some fs ∧ fs.flatten = out.take (n * ttAudioFrameFrames) := by
  induction n with
  | zero => exact ⟨[], rfl, by simp⟩
  | succ n ih =>
    obtain ⟨fs, hfs, hflat⟩ := ih ((Nat.mul_le_mul_right _ n.le_succ).trans hn)
    refine ⟨fs ++ [(out.drop (n * ttAudioFrameFrames)).take ttAudioFrameFrames], ?_, ?_⟩
    · simp only [pushFrames, hfs, Option.bind_eq_bind, Option.bind_some]
      exact if_pos hn
    · rw [List.flatten_append, hflat, List.flatten_singleton, Nat.add_mul, Nat.one_mul]
      exact List.take_add.symm

theorem tdiv_between {x lo hi k : ℤ} (hk : 0 < k) (hlo : lo * k ≤ x) (hhi : x ≤ hi * k) :
    lo ≤ x.tdiv k ∧ x.tdiv k ≤ hi := by
  rcases le_total 0 x with hx | hx
  · rw [Int.tdiv_eq_ediv_of_nonneg hx]
    constructor
    · exact (Int.le_ediv_iff_mul_le hk).mpr hlo
    · exact Int.ediv_le_of_le_mul hk hhi
  · have hneg : x.tdiv k = -((-x) / k) := by
      rw [← Int.tdiv_eq_ediv_of_nonneg (by omega), Int.neg_tdiv, neg_neg]
    rw [hneg]
    constructor
    · have : -x / k ≤ -lo := Int.ediv_le_of_le_mul hk (by linarith)
      omega
    · have : -hi ≤ -x / k := (Int.le_ediv_iff_mul_le hk).mpr (by linarith)
      omega

def channelSamples (pcm : List Int16) (channels i : ℕ) : List Int16 := (pcm.drop (i * channels)).take channels

theorem mem_channelSamples {pcm : List Int16} {channels i c : ℕ} {x : Int16} (hc : c < channels)
    (hx : pcm[i * channels + c]? = some x) : x ∈ channelSamples pcm channels i := by
  apply List.mem_of_getElem? (i := c)
  rw [channelSamples, List.getElem?_take_of_lt hc, List.getElem?_drop, hx]

theorem channelSum_spec {pcm : List Int16} {channels i : ℕ} (hch : channels < 256)
    (hi : (i + 1) * channels ≤ pcm.length) {k : ℕ} (hk : k ≤ channels) :
    ∃ acc, channelSum pcm channels i k = some acc ∧
      (∀ lo : ℤ, (∀ x ∈ channelSamples pcm channels i, lo ≤ x.toInt) → lo * k ≤ acc) ∧
      ∀ hi : ℤ, (∀ x ∈ channelSamples pcm channels i, x.toInt ≤ hi) → acc ≤ hi * k := by
  induction k with
  | zero => exact ⟨0, rfl, fun _ _ => by simp, fun _ _ => by simp⟩
  | succ k ih =>
    obtain ⟨acc, hacc, hlo, hhi⟩ := ih (Nat.le_of_succ_le hk)
    have hlt : i * channels + k < pcm.length := by
      rw [Nat.add_mul] at hi
      omega
    have hget : pcm[i * channels + k]? = some pcm[i * channels + k] := List.getElem?_eq_getElem hlt
    have hmem := mem_channelSamples hk hget
    have h1 := hlo (-2 ^ 15) fun x _ => x.le_toInt
    have h2 := hhi (2 ^ 15) fun x _ => x.toInt_lt.le
    have h3 := pcm[i * channels + k].le_toInt
    have h4 := pcm[i * channels + k].toInt_lt
    refine ⟨acc + pcm[i * channels + k].toInt, ?_, ?_, ?_⟩
    · simp only [channelSum, hacc, hget, Option.bind_eq_bind, Option.bind_some]
      apply int32_eq <;> omega
    · intro lo h
      have := hlo lo h
      have := h _ hmem
      push_cast
      linarith
    · intro hi h
      have := hhi hi h
      have := h _ hmem
      push_cast
      linarith

/-- `m` is no less than the least and no more than the greatest of `l`. -/
def Between (l : List Int16) (m : Int16) : Prop :=
  (∃ x ∈ l, x.toInt ≤ m.toInt) ∧ ∃ x ∈ l, m.toInt ≤ x.toInt

theorem monoSample_spec {pcm : List Int16} {channels i : ℕ} (h0 : 0 < channels) (hch : channels < 256)
    (hi : (i + 1) * channels ≤ pcm.length) :
    ∃ m, monoSample pcm channels i = some m ∧ Between (channelSamples pcm channels i) m := by
  obtain ⟨acc, hacc, hlo, hhi⟩ := channelSum_spec hch hi le_rfl
  have hpos : (0 : ℤ) < channels := by exact_mod_cast h0
  obtain ⟨h1, h2⟩ := tdiv_between hpos (hlo (-2 ^ 15) fun x _ => x.le_toInt)
    (hhi (2 ^ 15 - 1) fun x _ => Int.le_sub_one_of_lt x.toInt_lt)
  have hm : (Int16.ofInt (acc.tdiv channels)).toInt = acc.tdiv channels :=
    Int16.toInt_ofInt_of_le h1 (by omega)
  refine ⟨Int16.ofInt (acc.tdiv channels), ?_, ?_⟩
  · simp only [monoSample, hacc, Option.bind_eq_bind, Option.bind_some]
  · rw [Between, hm]
    constructor
    · by_contra hn
      have := (tdiv_between hpos (hlo (acc.tdiv channels + 1) fun x hx => by
        by_contra hlt
        exact hn ⟨x, hx, by omega⟩) (hhi (2 ^ 15) fun x _ => x.toInt_lt.le)).1
      omega
    · by_contra hn
      have := (tdiv_between hpos (hlo (-2 ^ 15) fun x _ => x.le_toInt)
        (hhi (acc.tdiv channels - 1) fun x hx => by
          by_contra hlt
          exact hn ⟨x, hx, by omega⟩)).2
      omega

/-- `x` is between the two samples of `mono` around place `i` of the output; past the last sample
there is only the last one. -/
def Interpolates (mono : List Int16) (rate i : ℕ) (x : Int16) : Prop :=
  ∃ a b, mono[i * rate / 48000]? = some a ∧ mono[min (i * rate / 48000 + 1) (mono.length - 1)]? = some b ∧
    min a.toInt b.toInt ≤ x.toInt ∧ x.toInt ≤ max a.toInt b.toInt

theorem blend_between (a b : Int16) {fr : ℕ} (hfr : fr < 48000) :
    ∃ d, int32 (((b.toInt - a.toInt) * fr).tdiv 48000) = some d ∧
      min a.toInt b.toInt ≤ a.toInt + d ∧ a.toInt + d ≤ max a.toInt b.toInt := by
  have ha := a.le_toInt
  have ha' := a.toInt_lt
  have hb := b.le_toInt
  have hb' := b.toInt_lt
  have h0 : (0 : ℤ) ≤ fr := Int.natCast_nonneg fr
  have h1 : (fr : ℤ) ≤ 48000 := by exact_mod_cast hfr.le
  rcases le_total a.toInt b.toInt with hab | hab
  · have hlow : 0 * 48000 ≤ (b.toInt - a.toInt) * fr := by
      rw [zero_mul]
      exact mul_nonneg (by omega) h0
    obtain ⟨hlo, hhi⟩ := tdiv_between (by decide) hlow (mul_le_mul_of_nonneg_left h1 (by omega))
    refine ⟨_, int32_eq (by omega) (by omega), ?_, ?_⟩
    · rw [min_eq_left hab]
      omega
    · rw [max_eq_right hab]
      omega
  · have hhigh : (b.toInt - a.toInt) * fr ≤ 0 * 48000 := by
      rw [zero_mul]
      exact mul_nonpos_of_nonpos_of_nonneg (by omega) h0
    obtain ⟨hlo, hhi⟩ := tdiv_between (by decide) (mul_le_mul_of_nonpos_left h1 (by omega)) hhigh
    refine ⟨_, int32_eq (by omega) (by omega), ?_, ?_⟩
    · rw [min_eq_right hab]
      omega
    · rw [max_eq_left hab]
      omega

theorem nextSample_spec {mono : List Int16} {p : ℕ} (hp : p < mono.length) :
    ∃ b, nextSample mono mono.length p mono[p] = some b ∧ mono[min (p + 1) (mono.length - 1)]? = some b := by
  rw [nextSample]
  split_ifs with h
  · refine ⟨mono[p + 1], List.getElem?_eq_getElem h, ?_⟩
    rw [Nat.min_eq_left (by omega)]
    exact List.getElem?_eq_getElem h
  · have hlast : min (p + 1) (mono.length - 1) = p := by omega
    refine ⟨mono[p], rfl, ?_⟩
    rw [hlast]
    exact List.getElem?_eq_getElem hp

theorem interpolate_spec {mono : List Int16} {rate i : ℕ} (hn : mono.length ≤ ttAudioRxMaxSamples)
    (hr : 0 < rate) (hr' : rate < 2 ^ 32) (hne : rate ≠ 48000) (hi : i < audioOut mono.length rate) :
    ∃ x, interpolate mono mono.length rate i = some x ∧ Interpolates mono rate i x := by
  simp only [ttAudioRxMaxSamples, ttAudioFrameFrames] at hn
  rw [audioOut, if_neg hne, Nat.mod_eq_of_lt (by omega), lt_min_iff] at hi
  obtain ⟨hdiv, hmax⟩ := hi
  simp only [ttAudioRxMaxSamples, ttAudioFrameFrames] at hmax
  have hprod : (i + 1) * rate ≤ mono.length * 48000 := (Nat.le_div_iff_mul_le hr).mp hdiv
  have hlt : i * rate < mono.length * 48000 := by
    rw [Nat.add_mul] at hprod
    omega
  have hp : i * rate / 48000 < mono.length := (Nat.div_lt_iff_lt_mul (by decide)).mpr hlt
  obtain ⟨b, hb, hb'⟩ := nextSample_spec hp
  have ha : mono[i * rate / 48000]? = some mono[i * rate / 48000] := List.getElem?_eq_getElem hp
  obtain ⟨d, hd, hlo, hhi⟩ := blend_between mono[i * rate / 48000] b (Nat.mod_lt (i * rate) (by decide))
  have h1 := mono[i * rate / 48000].le_toInt
  have h2 := mono[i * rate / 48000].toInt_lt
  have h3 := b.le_toInt
  have h4 := b.toInt_lt
  have hx : -2 ^ 15 ≤ mono[i * rate / 48000].toInt + d ∧ mono[i * rate / 48000].toInt + d < 2 ^ 15 := by
    constructor <;> omega
  refine ⟨Int16.ofInt (mono[i * rate / 48000].toInt + d), ?_, _, b, ha, hb', ?_⟩
  · have hnum : i * rate % 2 ^ 64 = i * rate := Nat.mod_eq_of_lt (by omega)
    have hsum : int32 (mono[i * rate / 48000].toInt + d) = some (mono[i * rate / 48000].toInt + d) :=
      int32_eq (by omega) (by omega)
    simp only [interpolate, hnum, ha, hb, hd, hsum, Option.bind_eq_bind, Option.bind_some]
  · rw [Int16.toInt_ofInt_of_le hx.1 hx.2]
    exact ⟨hlo, hhi⟩

theorem audioIn_le {samples channels i : ℕ} (hi : i < audioIn samples channels) :
    (i + 1) * channels ≤ samples := by
  have h : i + 1 ≤ samples / channels := (lt_min_iff.mp hi).1
  exact (Nat.mul_le_mul_right channels h).trans (Nat.div_mul_le_self samples channels)

theorem pushed_fit {out : List Int16} {n : ℕ} (h : out.length = n) :
    n / ttAudioFrameFrames * ttAudioFrameFrames ≤ out.length := by
  rw [h]
  exact Nat.div_mul_le_self n ttAudioFrameFrames

/-- A call reads and writes inside what it was given and what it has written itself, every mono sample
is between its channels, and every output sample is between its two neighbours. -/
theorem audioRxConvert_inRange (pcm : List Int16) (channels : UInt8) (rate : UInt32)
    (hc : 1 ≤ channels.toNat) (hr : 1 ≤ rate.toNat) :
    ∃ r, audioRxConvert pcm channels rate = some r ∧
      r.mono.length = audioIn pcm.length channels.toNat ∧
      (∀ i m, r.mono[i]? = some m → Between (channelSamples pcm channels.toNat i) m) ∧
      r.out.length = audioOut r.mono.length rate.toNat ∧
      (rate.toNat = 48000 → r.out = r.mono) ∧
      (rate.toNat ≠ 48000 → ∀ i x, r.out[i]? = some x → Interpolates r.mono rate.toNat i x) ∧
      r.pushed.flatten = r.out.take (r.out.length / ttAudioFrameFrames * ttAudioFrameFrames) := by
  have hc0 : channels ≠ 0 := fun h => by simp [h] at hc
  have hr0 : rate ≠ 0 := fun h => by simp [h] at hr
  have hn : audioIn pcm.length channels.toNat ≤ ttAudioRxMaxSamples := min_le_right _ _
  obtain ⟨mono, hmono, hlen, hbetween⟩ := fill_spec hn fun i hi =>
    monoSample_spec hc channels.toNat_lt (audioIn_le hi)
  have houtLe : audioOut mono.length rate.toNat ≤ ttAudioRxMaxSamples := by
    rw [audioOut]
    split_ifs
    · rw [hlen]
      exact hn
    · exact min_le_right _ _
  rw [audioRxConvert, if_neg (not_or.mpr ⟨hr0, hc0⟩)]
  by_cases h48 : rate.toNat = 48000
  · have hout : mono.length = audioOut mono.length rate.toNat := by rw [audioOut, if_pos h48]
    obtain ⟨fs, hfs, hflat⟩ := pushFrames_spec (pushed_fit hout)
    refine ⟨⟨mono, mono, fs⟩, ?_, hlen, hbetween, hout, fun _ => rfl, fun h => absurd h48 h, ?_⟩
    · rw [hlen] at hfs
      simp only [hmono, h48, ne_eq, not_true_eq_false, if_false, Option.bind_eq_bind, Option.bind_some]
      rw [← h48, hfs]
      rfl
    · rw [hflat, ← hout]
  · obtain ⟨out, hout, houtLen, hinter⟩ := fill_spec houtLe fun i hi =>
      interpolate_spec (hlen.trans_le hn) hr rate.toNat_lt h48 hi
    obtain ⟨fs, hfs, hflat⟩ := pushFrames_spec (pushed_fit houtLen)
    refine ⟨⟨mono, out, fs⟩, ?_, hlen, hbetween, houtLen, fun h => absurd h h48, fun _ => hinter, ?_⟩
    · rw [hlen] at hout hfs
      simp only [hmono, ne_eq, h48, not_false_eq_true, if_true, hout, hfs, Option.bind_eq_bind,
        Option.bind_some]
    · rw [hflat, houtLen]

theorem audioRxConvert_inRange_stereo :
    audioRxConvert [10, 20, -10, -30] 2 24000 = some ⟨[15, -20], [15, -2, -20, -20], []⟩ ∧
      ∃ r, audioRxConvert [10, 20, -10, -30] 2 24000 = some r ∧ r.out.length = audioOut r.mono.length 24000 := by
  obtain ⟨r, hr, -, -, hout, -⟩ := audioRxConvert_inRange [10, 20, -10, -30] 2 24000 (by decide) (by decide)
  exact ⟨by decide +kernel, r, hr, hout⟩

end TkTox
