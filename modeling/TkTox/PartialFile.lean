import Mathlib.Data.List.Basic
import Mathlib.Order.Nat
import Mathlib.Tactic.Common

/-!
A file received in pieces. It is written at a position that may lie past its end, through a
buffer that empties as it likes, and what counts is how many of its leading elements are those
of the file it is to become.
-/

namespace PartialFile

variable {α : Type*}

def common [DecidableEq α] : List α → List α → ℕ
  | a :: as, b :: bs => if a = b then common as bs + 1 else 0
  | _, _ => 0

def writeAt (z : α) (c : List α) (pos : ℕ) (b : List α) : List α :=
  if b = [] then c
  else c.take pos ++ List.replicate (pos - c.length) z ++ b ++ c.drop (pos + b.length)

variable {z : α} {c src b : List α} {pos n k : ℕ}

theorem writeAt_length (hc : c.length ≤ src.length) (hb : pos + b.length ≤ src.length) :
    (writeAt z c pos b).length ≤ src.length := by
  unfold writeAt
  split
  · exact hc
  · simp only [List.length_append, List.length_take, List.length_replicate, List.length_drop]
    omega

theorem writeAt_take (hpos : pos ≤ c.length) :
    (writeAt z c pos b).take (pos + b.length) = c.take pos ++ b := by
  unfold writeAt
  split
  · next hb => simp [hb]
  · have hlen : (c.take pos ++ b).length = pos + b.length := by simp [hpos]
    rw [Nat.sub_eq_zero_of_le hpos, List.replicate_zero, List.append_nil, ← hlen]
    exact List.take_left

theorem writeAt_drop (hpos : pos ≤ c.length) :
    (writeAt z c pos b).drop (pos + b.length) = c.drop (pos + b.length) := by
  unfold writeAt
  split
  · rfl
  · have hlen : (c.take pos ++ b).length = pos + b.length := by simp [hpos]
    rw [Nat.sub_eq_zero_of_le hpos, List.replicate_zero, List.append_nil, ← hlen]
    exact List.drop_left

variable [DecidableEq α]

theorem le_common_iff : n ≤ common c src ↔ n ≤ c.length ∧ c.take n = src.take n ∧ n ≤ src.length := by
  induction c, src using common.induct generalizing n with
  | case1 a as bs ih =>
    cases n with
    | zero => simp
    | succ n => simp [common, ih]
  | case2 a as b bs hab =>
    cases n with
    | zero => simp
    | succ n => simp [common, hab]
  | case3 c src hne =>
    cases n with
    | zero => simp
    | succ n =>
      cases c with
      | nil => simp [common]
      | cons a as =>
        cases src with
        | nil => simp [common]
        | cons b bs => exact absurd rfl (hne a as b bs rfl)

theorem common_le : common c src ≤ src.length := (le_common_iff.mp le_rfl).2.2

@[simp] theorem common_nil : common [] src = 0 := by
  cases src <;> rfl

theorem common_of_isPrefix (h : c <+: src) : common c src = c.length := by
  apply le_antisymm
  · exact (le_common_iff.mp le_rfl).1
  · apply le_common_iff.mpr
    refine ⟨le_rfl, ?_, h.length_le⟩
    rw [List.take_length, List.prefix_iff_eq_take.mp h, List.length_take_of_le h.length_le]

theorem eq_of_common (h : src.length ≤ common c src) (hc : c.length ≤ src.length) : c = src := by
  obtain ⟨-, ht, -⟩ := le_common_iff.mp h
  rwa [List.take_of_length_le hc, List.take_length] at ht

theorem common_writeAt (hpos : pos ≤ common c src) (hb : b = (src.drop pos).take b.length) :
    common c src ≤ common (writeAt z c pos b) src ∧
      pos + b.length ≤ common (writeAt z c pos b) src := by
  obtain ⟨hlen, htake, hsrc⟩ := le_common_iff.mp hpos
  have hroom : pos + b.length ≤ src.length := by
    have : b.length ≤ src.length - pos := by
      rw [← List.length_drop]
      conv_lhs => rw [hb]
      exact List.length_take_le' _ _
    omega
  have hnew : (writeAt z c pos b).take (pos + b.length) = src.take (pos + b.length) := by
    rw [writeAt_take hlen, htake, List.take_add, ← hb]
  have hlong : pos + b.length ≤ (writeAt z c pos b).length := by
    have h := congrArg List.length hnew
    rw [List.length_take, List.length_take_of_le hroom] at h
    omega
  have hreach : pos + b.length ≤ common (writeAt z c pos b) src :=
    le_common_iff.mpr ⟨hlong, hnew, hroom⟩
  refine ⟨?_, hreach⟩
  obtain hle | hlt := Nat.le_or_le (common c src) (pos + b.length)
  · exact hle.trans hreach
  obtain ⟨d, hd⟩ := Nat.exists_eq_add_of_le hlt
  obtain ⟨hk, hc, hks⟩ := le_common_iff.mp hd.ge
  rw [hd]
  have hrest : (c.drop (pos + b.length)).take d = (src.drop (pos + b.length)).take d := by
    have h := congrArg (List.drop (pos + b.length)) hc
    rwa [List.drop_take, List.drop_take, Nat.add_sub_cancel_left] at h
  apply le_common_iff.mpr
  refine ⟨?_, ?_, hks⟩
  · have h := congrArg List.length (writeAt_drop (z := z) (b := b) hlen)
    rw [List.length_drop, List.length_drop] at h
    omega
  · have hsplit (l : List α) := List.take_add (l := l) (i := pos + b.length) (j := d)
    rw [hsplit, hsplit, hnew, writeAt_drop hlen, hrest]

/-- A file `c` on its way to `src`: it is written at `pos`, where it is right so far, and what
waits in the buffer goes there. -/
structure Filling (src c : List α) (pos : ℕ) (buffer : List α) : Prop where
  reached : pos ≤ common c src
  buffer : buffer = (src.drop pos).take buffer.length
  length : c.length ≤ src.length

variable {buffer data : List α}

theorem Filling.got_le (h : Filling src c pos buffer) : pos + buffer.length ≤ src.length := by
  have hpos : pos ≤ src.length := h.reached.trans common_le
  have : buffer.length ≤ src.length - pos := by
    rw [← List.length_drop]
    conv_lhs => rw [h.buffer]
    exact List.length_take_le' _ _
  omega

theorem Filling.write (h : Filling src c pos buffer)
    (hd : data = (src.drop (pos + buffer.length)).take data.length) :
    Filling src c pos (buffer ++ data) := by
  refine ⟨h.reached, ?_, h.length⟩
  rw [List.length_append, List.take_add, ← h.buffer, List.drop_drop, ← hd]

theorem Filling.flush (h : Filling src c pos buffer) (z : α) (k : ℕ) :
    Filling src (writeAt z c pos (buffer.take k)) (pos + (buffer.take k).length) (buffer.drop k) ∧
      common c src ≤ common (writeAt z c pos (buffer.take k)) src := by
  have hk : buffer.take k = (src.drop pos).take (buffer.take k).length := by
    conv_lhs => rw [h.buffer]
    rw [List.take_take, List.length_take]
  obtain ⟨hmono, hreach⟩ := common_writeAt (z := z) h.reached hk
  have hgot := h.got_le
  refine ⟨⟨hreach, ?_, ?_⟩, hmono⟩
  · have hd : ∀ t, buffer.drop t = (src.drop (pos + t)).take (buffer.length - t) := by
      intro t
      conv_lhs => rw [h.buffer]
      rw [List.drop_take, List.drop_drop]
    rw [List.length_take, List.length_drop]
    obtain hle | hlt := Nat.le_total k buffer.length
    · rw [Nat.min_eq_left hle]
      exact hd k
    · rw [List.drop_eq_nil_of_le hlt, Nat.sub_eq_zero_of_le hlt, List.take_zero]
  · apply writeAt_length h.length
    rw [List.length_take]
    omega

theorem Filling.whole (h : Filling src c pos []) (hpos : src.length ≤ pos) : c = src :=
  eq_of_common (hpos.trans h.reached) h.length

end PartialFile
