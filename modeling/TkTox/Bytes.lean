import Mathlib.Data.Vector.Basic
import Mathlib.Tactic

/-!
Byte strings, fixed-size byte arrays and the big-endian integer fields that the
wire frames and the sidecar files are made of.
-/

namespace TkTox

abbrev Bytes := List UInt8

abbrev Blob (n : ℕ) := List.Vector UInt8 n

namespace Blob

variable {n : ℕ}

def zero (n : ℕ) : Blob n := List.Vector.replicate n 0

def bytes (b : Blob n) : Bytes := b.toList

@[simp] theorem bytes_length (b : Blob n) : b.bytes.length = n := b.toList_length

theorem bytes_inj {a b : Blob n} : a.bytes = b.bytes ↔ a = b :=
  ⟨fun h => List.Vector.toList_injective h, fun h => by rw [h]⟩

def read (n : ℕ) (b : Bytes) : Blob n :=
  ⟨(b ++ List.replicate n 0).take n, by simp⟩

@[simp] theorem read_append (b : Blob n) (rest : Bytes) : read n (b.bytes ++ rest) = b := by
  apply bytes_inj.mp
  change ((b.bytes ++ rest) ++ List.replicate n 0).take n = b.bytes
  rw [List.append_assoc]
  exact List.take_left' b.bytes_length

@[simp] theorem read_bytes (b : Blob n) : read n b.bytes = b := by
  simpa using read_append b []

theorem bytes_read {b : Bytes} (h : n ≤ b.length) : (read n b).bytes = b.take n := by
  change (b ++ List.replicate n 0).take n = b.take n
  rw [List.take_append_of_le_length h]

end Blob

def u16be (v : ℕ) : Bytes := [UInt8.ofNat (v / 256), UInt8.ofNat v]

def u32be (v : ℕ) : Bytes :=
  [UInt8.ofNat (v / 256 ^ 3), UInt8.ofNat (v / 256 ^ 2), UInt8.ofNat (v / 256), UInt8.ofNat v]

def readU16 (b : Bytes) : ℕ := (b.getD 0 0).toNat * 256 + (b.getD 1 0).toNat

def readU32 (b : Bytes) : ℕ :=
  (b.getD 0 0).toNat * 256 ^ 3 + (b.getD 1 0).toNat * 256 ^ 2 +
    (b.getD 2 0).toNat * 256 + (b.getD 3 0).toNat

@[simp] theorem u16be_length (v : ℕ) : (u16be v).length = 2 := rfl

@[simp] theorem u32be_length (v : ℕ) : (u32be v).length = 4 := rfl

theorem readU16_u16be {v : ℕ} (h : v < 2 ^ 16) (rest : Bytes) : readU16 (u16be v ++ rest) = v := by
  simp only [readU16, u16be, List.cons_append, List.nil_append, List.getD_cons_zero,
    List.getD_cons_succ, UInt8.toNat_ofNat']
  omega

theorem readU32_u32be {v : ℕ} (h : v < 2 ^ 32) (rest : Bytes) : readU32 (u32be v ++ rest) = v := by
  simp only [readU32, u32be, List.cons_append, List.nil_append, List.getD_cons_zero,
    List.getD_cons_succ, UInt8.toNat_ofNat']
  omega

theorem readU32_lt (b : Bytes) : readU32 b < 2 ^ 32 := by
  have h0 := (b.getD 0 0).toNat_lt
  have h1 := (b.getD 1 0).toNat_lt
  have h2 := (b.getD 2 0).toNat_lt
  have h3 := (b.getD 3 0).toNat_lt
  simp only [readU32]
  omega

theorem u16be_readU16 {b : Bytes} (h : 2 ≤ b.length) : u16be (readU16 b) = b.take 2 := by
  obtain ⟨x, y, rest, rfl⟩ : ∃ x y rest, b = x :: y :: rest := by
    match b, h with
    | x :: y :: rest, _ => exact ⟨x, y, rest, rfl⟩
  have h0 := x.toNat_lt
  have h1 := y.toNat_lt
  simp only [u16be, readU16, List.getD_cons_zero, List.getD_cons_succ, List.take_succ_cons,
    List.take_zero, List.cons.injEq, and_true]
  refine ⟨?_, ?_⟩ <;> rw [← UInt8.toNat_inj, UInt8.toNat_ofNat'] <;> omega

theorem u32be_readU32 {b : Bytes} (h : 4 ≤ b.length) : u32be (readU32 b) = b.take 4 := by
  obtain ⟨x, y, z, u, rest, rfl⟩ : ∃ x y z u rest, b = x :: y :: z :: u :: rest := by
    match b, h with
    | x :: y :: z :: u :: rest, _ => exact ⟨x, y, z, u, rest, rfl⟩
  have h0 := x.toNat_lt
  have h1 := y.toNat_lt
  have h2 := z.toNat_lt
  have h3 := u.toNat_lt
  simp only [u32be, readU32, List.getD_cons_zero, List.getD_cons_succ, List.take_succ_cons,
    List.take_zero, List.cons.injEq, and_true]
  refine ⟨?_, ?_, ?_, ?_⟩ <;> rw [← UInt8.toNat_inj, UInt8.toNat_ofNat'] <;> omega

end TkTox
