import Mathlib.Data.List.TakeWhile
import TkTox.ChatEngine
import TkTox.Tiling

/-!
The row a friend has in the offline queue, and texts and their chunks as intervals of what was queued.
-/

namespace TkTox

open Tiling

/-- What `tt_oq_add` and `tt_oq_take_all` keep: texts are C strings and never empty. -/
structure TTOqFriend.Wf (fr : TTOqFriend) : Prop where
  head : fr.head < ttOqMaxPerFriend
  count : fr.count ≤ ttOqMaxPerFriend
  absent : fr.msgs = none → fr.count = 0
  texts : ∀ b ∈ fr.messages, b ≠ [] ∧ cString b = b ∧ b.length ≤ toxMaxMessageLength

theorem TTOqFriend.empty_wf : TTOqFriend.empty.Wf where
  head := by decide
  count := by decide
  absent := fun _ => rfl
  texts := fun b hb => by simp [TTOqFriend.messages, TTOqFriend.empty] at hb

theorem TTOqFriend.Wf.messages_length {fr : TTOqFriend} (h : fr.Wf) : fr.messages.length = fr.count := by
  unfold TTOqFriend.messages
  cases hm : fr.msgs with
  | none => simp [h.absent hm]
  | some m => simp

theorem cString_cString (b : Bytes) : cString (cString b) = cString b :=
  List.takeWhile_idem ..

theorem cString_infix {b c : Bytes} (h : c <:+: b) (hb : cString b = b) : cString c = c := by
  rw [cString_eq_self_iff] at hb ⊢
  intro hz
  exact hb (h.subset hz)

theorem TTOqFriend.put_wf {fr : TTOqFriend} (h : fr.Wf) (text : Bytes) : (fr.put text).Wf := by
  unfold TTOqFriend.put
  split_ifs with hc
  · exact h
  · have hm := fr.messages_add text h.count h.absent
    refine ⟨?_, ?_, fun hn => ?_, ?_⟩
    · unfold TTOqFriend.add
      split_ifs
      · exact Nat.mod_lt _ (by decide)
      · exact h.head
    · have := h.count
      unfold TTOqFriend.add
      split_ifs with hf
      · simp only [ttOqMaxPerFriend] at hf ⊢
        omega
      · simp only [ttOqMaxPerFriend] at hf this ⊢
        omega
    · simp [TTOqFriend.add] at hn
    · rw [hm]
      intro b hb
      rw [List.mem_append, List.mem_singleton] at hb
      obtain hb | rfl := hb
      · apply h.texts b
        split_ifs at hb
        · exact List.mem_of_mem_tail hb
        · exact hb
      · refine ⟨?_, ?_, by simp⟩
        · simpa [ttOqMaxPerFriend] using hc
        · exact cString_infix (List.take_prefix _ _).isInfix (cString_cString text)

theorem TTOqFriend.takeAll_texts (fr : TTOqFriend) : fr.takeAll.2 = fr.messages := by
  unfold TTOqFriend.takeAll TTOqFriend.messages
  cases fr.msgs <;> rfl

theorem TTOqFriend.Wf.takeAll {fr : TTOqFriend} (h : fr.Wf) :
    fr.takeAll.1.Wf ∧ fr.takeAll.1.messages = [] := by
  cases hm : fr.msgs with
  | none =>
    have he : fr.takeAll.1 = fr := by simp [TTOqFriend.takeAll, hm]
    rw [he]
    exact ⟨h, by simp [TTOqFriend.messages, hm]⟩
  | some m =>
    have he : fr.takeAll.1 = { fr with head := (fr.head + fr.count) % ttOqMaxPerFriend, count := 0 } := by
      simp [TTOqFriend.takeAll, hm]
    have hnil : fr.takeAll.1.messages = [] := by rw [he]; simp [TTOqFriend.messages, hm]
    refine ⟨⟨?_, ?_, ?_, ?_⟩, hnil⟩
    · rw [he]
      exact Nat.mod_lt _ (by decide)
    · rw [he]
      exact Nat.zero_le _
    · rw [he]
      exact fun _ => rfl
    · rw [hnil]
      simp

theorem TTOqFriend.Wf.messages_put {fr : TTOqFriend} (h : fr.Wf) (hroom : fr.messages.length < ttOqMaxPerFriend)
    {b : Bytes} (hne : b ≠ []) (hc : cString b = b) (hl : b.length ≤ toxMaxMessageLength) :
    (fr.put b).messages = fr.messages ++ [b] := by
  rw [h.messages_length] at hroom
  have hcount : fr.count ≠ ttOqMaxPerFriend := Nat.ne_of_lt hroom
  have hput : fr.put b = fr.add b := if_neg (by rwa [hc])
  rw [hput, fr.messages_add b h.count h.absent, if_neg hcount, hc, List.take_of_length_le hl]

variable {src : Bytes}

abbrev Covers : ℕ → List Piece → ℕ → Prop := Tiles Piece.start Piece.stop

theorem Covers.append_iff {a b m : ℕ} {ps qs : List Piece} (h : Covers a ps m) :
    Covers a (ps ++ qs) b ↔ Covers m qs b := Tiles.append_iff h

def Piece.Of (src : Bytes) (p : Piece) : Prop :=
  ∃ a c, src = a ++ p.bytes ++ c ∧ a.length = p.start

structure Piece.Text (p : Piece) : Prop where
  ne : p.bytes ≠ []
  cstr : cString p.bytes = p.bytes
  short : p.bytes.length ≤ toxMaxMessageLength

theorem Piece.start_lt_stop {p : Piece} (h : p.bytes ≠ []) : p.start < p.stop := by
  have := List.length_pos_iff.mpr h
  unfold Piece.stop
  omega

theorem textPieces_covers (start : ℕ) (bs : List Bytes) :
    Covers start (textPieces start bs) (start + bs.flatten.length) := by
  induction bs generalizing start with
  | nil => simp [textPieces]
  | cons b bs ih =>
    refine ⟨rfl, ?_⟩
    have := ih (start + b.length)
    rw [List.flatten_cons, List.length_append, ← Nat.add_assoc]
    exact this

@[simp] theorem textPieces_length (start : ℕ) (bs : List Bytes) :
    (textPieces start bs).length = bs.length := by
  induction bs generalizing start with
  | nil => rfl
  | cons b bs ih => simp [textPieces, ih]

theorem textPieces_bytes (start : ℕ) (bs : List Bytes) :
    (textPieces start bs).map Piece.bytes = bs := by
  induction bs generalizing start with
  | nil => rfl
  | cons b bs ih => simp [textPieces, ih]

theorem textPieces_text (start : ℕ) {bs : List Bytes}
    (h : ∀ b ∈ bs, b ≠ [] ∧ cString b = b ∧ b.length ≤ toxMaxMessageLength) :
    ∀ p ∈ textPieces start bs, p.Text := by
  intro p hp
  have hb : p.bytes ∈ (textPieces start bs).map Piece.bytes := List.mem_map_of_mem hp
  rw [textPieces_bytes] at hb
  exact ⟨(h _ hb).1, (h _ hb).2.1, (h _ hb).2.2⟩

theorem chunksFrom_covers {n : ℕ} (start : ℕ) {rest : Bytes} (h : rest.length ≤ n) :
    Covers start (chunksFrom n start rest) (start + rest.length) := by
  induction n generalizing start rest with
  | zero =>
    have : rest = [] := List.length_eq_zero_iff.mp (Nat.le_zero.mp h)
    simp [chunksFrom, this]
  | succ n ih =>
    unfold chunksFrom
    by_cases hr : rest = []
    · simp [hr]
    rw [if_neg hr]
    refine ⟨rfl, ?_⟩
    have hpos := List.length_pos_iff.mpr hr
    by_cases hle : rest.length ≤ ttE2eeChunk
    · have hd : rest.drop ttE2eeChunk = [] := List.drop_eq_nil_of_le hle
      have hnil : chunksFrom n (start + ttE2eeChunk) [] = [] := by cases n <;> simp [chunksFrom]
      rw [hd, hnil]
      have ht : rest.take ttE2eeChunk = rest := List.take_of_length_le hle
      rw [ht]
      exact rfl
    · have hstop : start + (rest.take ttE2eeChunk).length = start + ttE2eeChunk := by
        rw [List.length_take, Nat.min_eq_left (by omega)]
      have hlen : start + rest.length = start + ttE2eeChunk + (rest.drop ttE2eeChunk).length := by
        rw [List.length_drop]
        omega
      have hn : (rest.drop ttE2eeChunk).length ≤ n := by
        rw [List.length_drop]
        have : 0 < ttE2eeChunk := by decide
        omega
      rw [Piece.stop, hstop, hlen]
      exact ih _ hn

theorem chunksFrom_bytes {n : ℕ} (start : ℕ) {rest : Bytes} (h : rest.length ≤ n) :
    (chunksFrom n start rest).flatMap Piece.bytes = rest := by
  induction n generalizing start rest with
  | zero =>
    have : rest = [] := List.length_eq_zero_iff.mp (Nat.le_zero.mp h)
    simp [chunksFrom, this]
  | succ n ih =>
    unfold chunksFrom
    by_cases hr : rest = []
    · simp [hr]
    · have hpos := List.length_pos_iff.mpr hr
      have hn : (rest.drop ttE2eeChunk).length ≤ n := by
        rw [List.length_drop]
        have : 0 < ttE2eeChunk := by decide
        omega
      rw [if_neg hr, List.flatMap_cons, ih _ hn]
      exact List.take_append_drop _ _

theorem chunksFrom_chunk (n start : ℕ) (rest : Bytes) :
    ∀ p ∈ chunksFrom n start rest, p.bytes ≠ [] ∧ p.bytes.length ≤ ttE2eeChunk := by
  induction n generalizing start rest with
  | zero => simp [chunksFrom]
  | succ n ih =>
    unfold chunksFrom
    by_cases hr : rest = []
    · simp [hr]
    · rw [if_neg hr]
      intro p hp
      rw [List.mem_cons] at hp
      obtain rfl | hp := hp
      · exact ⟨by simpa using hr, by simp⟩
      · exact ih _ _ p hp

theorem textChunks_covers (p : Piece) : Covers p.start (textChunks p) p.stop :=
  chunksFrom_covers p.start le_rfl

theorem textChunks_bytes (p : Piece) : (textChunks p).flatMap Piece.bytes = p.bytes :=
  chunksFrom_bytes p.start le_rfl

theorem textChunks_chunk {p q : Piece} (h : q ∈ textChunks p) :
    q.bytes ≠ [] ∧ q.bytes.length ≤ ttE2eeChunk := chunksFrom_chunk _ _ _ q h

theorem Covers.of {ps : List Piece} {x y : Bytes} {b : ℕ} (hs : src = x ++ ps.flatMap Piece.bytes ++ y)
    (hc : Covers x.length ps b) : ∀ q ∈ ps, q.Of src := by
  induction ps generalizing x with
  | nil => simp
  | cons q ps ih =>
    intro r hr
    obtain ⟨hq, hps⟩ := hc
    rw [List.mem_cons] at hr
    obtain rfl | hr := hr
    · exact ⟨x, ps.flatMap Piece.bytes ++ y, by simp [hs], hq.symm⟩
    · apply ih (x := x ++ q.bytes) _ _ r hr
      · simp [hs]
      · rw [List.length_append, ← hq]
        exact hps

theorem Piece.Of.covered {p : Piece} (hp : p.Of src) {ps : List Piece} {b : ℕ}
    (hc : Covers p.start ps b) (hb : ps.flatMap Piece.bytes = p.bytes) : ∀ q ∈ ps, q.Of src := by
  obtain ⟨x, y, hs, hx⟩ := hp
  refine Covers.of (x := x) (y := y) (b := b) ?_ ?_
  · rw [hb]
    exact hs
  · rw [hx]
    exact hc

end TkTox
