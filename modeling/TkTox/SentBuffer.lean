import TkTox.Bytes
import TkTox.Ring

/-!
The ring of unacknowledged outgoing messages of `session.c`, slot by slot, and the list of
live entries it stands for.
-/

namespace TkTox

@[simp] abbrev ttSentMax : ℕ := 32

structure TTSentMsg where
  gen : ℕ
  seq : ℕ
  data : Bytes
deriving DecidableEq

def TTSentMsg.zero : TTSentMsg := ⟨0, 0, []⟩

structure TTSentBuf where
  m : Fin ttSentMax → TTSentMsg
  head : ℕ
  count : ℕ
deriving DecidableEq

def TTSentBuf.zero : TTSentBuf := ⟨fun _ => .zero, 0, 0⟩

def sentIdx (n : ℕ) : Fin ttSentMax := Ring.idx ttSentMax n

def TTSentBuf.readSlot (i : Fin ttSentMax) (len : ℕ) (b : TTSentBuf) : Bytes :=
  (b.m i).data.take len ++ List.replicate (len - (b.m i).data.length) 0

def relSentRoom (b : TTSentBuf) : TTSentBuf :=
  if b.count ≥ ttSentMax then
    { m := Function.update b.m (sentIdx b.head) .zero
      head := (b.head + 1) % ttSentMax
      count := b.count - 1 }
  else b

/-- `text` is read through its pointer when the copy is taken, after the eviction. -/
def relSentAdd (b : TTSentBuf) (gen seq : ℕ) (text : TTSentBuf → Bytes) : TTSentBuf :=
  let b := relSentRoom b
  { b with
    m := Function.update b.m (sentIdx (b.head + b.count)) ⟨gen, seq, text b⟩
    count := b.count + 1 }

def relCompact (evict : TTSentMsg → Bool) (b : TTSentBuf) : TTSentBuf :=
  let st := (List.range b.count).foldl (Ring.compactStep evict .zero b.head) (b.m, 0)
  { b with m := st.1, count := st.2 }

def relSentAck (b : TTSentBuf) (g acked : ℕ) : TTSentBuf :=
  relCompact (fun e => e.gen == g && e.seq ≤ acked) b

def relSentRemove (b : TTSentBuf) (gen seq : ℕ) : TTSentBuf :=
  relCompact (fun e => e.gen == gen && e.seq == seq) b

/-- The live entries, oldest first. -/
def TTSentBuf.entries (b : TTSentBuf) : List TTSentMsg := Ring.entries b.m b.head b.count

theorem relCompact_entries {b : TTSentBuf} (hb : b.count ≤ ttSentMax) (evict : TTSentMsg → Bool) :
    (relCompact evict b).entries = b.entries.filter (fun e => !evict e) ∧
      (relCompact evict b).count ≤ b.count := by
  have h := Ring.compacted_foldl b.m b.head evict TTSentMsg.zero hb
  exact ⟨h.kept, h.le⟩

theorem relSentRoom_entries {b : TTSentBuf} (hb : b.count ≤ ttSentMax) :
    (relSentRoom b).entries = (if b.count = ttSentMax then b.entries.tail else b.entries) ∧
      (relSentRoom b).count < ttSentMax := by
  unfold relSentRoom TTSentBuf.entries
  by_cases hf : b.count = ttSentMax
  · rw [if_pos hf, if_pos hf.ge, ← Ring.entries_pop]
    simp only [ttSentMax] at hf ⊢
    refine ⟨Ring.entries_congr fun r hr => Function.update_of_ne (fun he => ?_) _ _, by omega⟩
    rw [sentIdx, Ring.idx_eq_iff] at he
    omega
  · have hlt : b.count < ttSentMax := lt_of_le_of_ne hb hf
    rw [if_neg hf, if_neg (not_le.mpr hlt)]
    exact ⟨rfl, hlt⟩

theorem relSentAdd_entries {b : TTSentBuf} (hb : b.count ≤ ttSentMax) (gen seq : ℕ)
    (text : TTSentBuf → Bytes) :
    (relSentAdd b gen seq text).entries =
      (if b.count = ttSentMax then b.entries.tail else b.entries) ++
        [⟨gen, seq, text (relSentRoom b)⟩] ∧
      (relSentAdd b gen seq text).count ≤ ttSentMax := by
  obtain ⟨he, hc⟩ := relSentRoom_entries hb
  rw [← he]
  exact ⟨Ring.entries_push _ _ hc _, hc⟩

/-- Append to a queue of at most `n` entries; a full one drops its oldest. -/
def pushBounded {α : Type*} (n : ℕ) (l : List α) (x : α) : List α :=
  (if l.length = n then l.tail else l) ++ [x]

/-- The ring stands for the list `l`. -/
structure TTSentBuf.Represents (b : TTSentBuf) (l : List TTSentMsg) : Prop where
  head : b.head < ttSentMax
  count : b.count ≤ ttSentMax
  live : b.entries = l

namespace TTSentBuf.Represents

variable {b : TTSentBuf} {l : List TTSentMsg}

theorem zero : TTSentBuf.zero.Represents [] := ⟨by decide, by decide, rfl⟩

theorem length_eq (h : b.Represents l) : l.length = b.count := by
  rw [← h.live, TTSentBuf.entries, Ring.entries_length]

theorem add (h : b.Represents l) (gen seq : ℕ) (text : Bytes) :
    (relSentAdd b gen seq fun _ => text).Represents (pushBounded ttSentMax l ⟨gen, seq, text⟩) := by
  obtain ⟨he, hc⟩ := relSentAdd_entries h.count gen seq fun _ => text
  constructor
  · have hhead : (relSentRoom b).head < ttSentMax := by
      rw [relSentRoom]
      split_ifs
      · exact Nat.mod_lt _ (by decide)
      · exact h.head
    exact hhead
  · exact hc
  · rw [he, pushBounded, h.length_eq, h.live]

theorem compact (h : b.Represents l) {evict : TTSentMsg → Bool} {P : TTSentMsg → Prop} [DecidablePred P]
    (hP : ∀ e, evict e = true ↔ P e) : (relCompact evict b).Represents (l.filter fun e => ¬P e) := by
  obtain ⟨he, hc⟩ := relCompact_entries h.count evict
  refine ⟨h.head, hc.trans h.count, ?_⟩
  rw [he, h.live]
  apply List.filter_congr
  intro e _
  by_cases hp : P e
  · simp [hp, (hP e).mpr hp]
  · simp [hp, mt (hP e).mp hp]

theorem ack (h : b.Represents l) (g acked : ℕ) :
    (relSentAck b g acked).Represents (l.filter fun e => ¬(e.gen = g ∧ e.seq ≤ acked)) := by
  apply h.compact
  intro e
  simp

theorem remove (h : b.Represents l) (gen seq : ℕ) :
    (relSentRemove b gen seq).Represents (l.filter fun e => ¬(e.gen = gen ∧ e.seq = seq)) := by
  apply h.compact
  intro e
  simp

end TTSentBuf.Represents

inductive SentOp
  | add (gen seq : ℕ) (text : Bytes)
  | ack (g acked : ℕ)
  | remove (gen seq : ℕ)

def sentRing (b : TTSentBuf) : SentOp → TTSentBuf
  | .add gen seq text => relSentAdd b gen seq fun _ => text
  | .ack g acked => relSentAck b g acked
  | .remove gen seq => relSentRemove b gen seq

def sentQueue (l : List TTSentMsg) : SentOp → List TTSentMsg
  | .add gen seq text => pushBounded ttSentMax l ⟨gen, seq, text⟩
  | .ack g acked => l.filter fun e => ¬(e.gen = g ∧ e.seq ≤ acked)
  | .remove gen seq => l.filter fun e => ¬(e.gen = gen ∧ e.seq = seq)

theorem sentRun_represents {b : TTSentBuf} {l : List TTSentMsg} (h : b.Represents l) (ops : List SentOp) :
    (ops.foldl sentRing b).Represents (ops.foldl sentQueue l) := by
  induction ops generalizing b l with
  | nil => exact h
  | cons op ops ih =>
    apply ih
    cases op with
    | add gen seq text => exact h.add gen seq text
    | ack g acked => exact h.ack g acked
    | remove gen seq => exact h.remove gen seq

/-- Each operation on the ring is the operation on its list, wherever the ring's head is. -/
theorem sentBuf_refines {b : TTSentBuf} {l : List TTSentMsg} (h : b.Represents l) :
    (∀ gen seq text, (relSentAdd b gen seq fun _ => text).Represents
      (pushBounded ttSentMax l ⟨gen, seq, text⟩)) ∧
    (∀ g acked, (relSentAck b g acked).Represents (l.filter fun e => ¬(e.gen = g ∧ e.seq ≤ acked))) ∧
    ∀ gen seq, (relSentRemove b gen seq).Represents (l.filter fun e => ¬(e.gen = gen ∧ e.seq = seq)) := by
  refine ⟨?_, ?_, ?_⟩
  · exact h.add
  · exact h.ack
  · exact h.remove

def wrappedRing : TTSentBuf := ⟨fun i => ⟨1, (i + 2) % 32, [UInt8.ofNat i]⟩, 30, 32⟩

def wrappedEntry (seq : ℕ) : TTSentMsg := ⟨1, seq, [UInt8.ofNat ((seq + 30) % 32)]⟩

theorem sentBuf_refines_wrapped :
    (relSentAdd wrappedRing 1 32 fun _ => [30]).Represents ((List.range' 1 32).map wrappedEntry) ∧
      (relSentAck wrappedRing 1 15).Represents ((List.range' 16 16).map wrappedEntry) ∧
      (relSentRemove wrappedRing 1 7).Represents ((List.range' 0 7 ++ List.range' 8 24).map wrappedEntry) := by
  have hlive : wrappedRing.entries = (List.range' 0 32).map wrappedEntry := by decide +kernel
  obtain ⟨hadd, hack, hremove⟩ := sentBuf_refines ⟨by decide, by decide, hlive⟩
  refine ⟨?_, ?_, ?_⟩
  · have h := hadd 1 32 [30]
    rwa [show pushBounded ttSentMax ((List.range' 0 32).map wrappedEntry) ⟨1, 32, [30]⟩ =
      (List.range' 1 32).map wrappedEntry by decide +kernel] at h
  · have h := hack 1 15
    rwa [show ((List.range' 0 32).map wrappedEntry).filter (fun e => ¬(e.gen = 1 ∧ e.seq ≤ 15)) =
      (List.range' 16 16).map wrappedEntry by decide +kernel] at h
  · have h := hremove 1 7
    rwa [show ((List.range' 0 32).map wrappedEntry).filter (fun e => ¬(e.gen = 1 ∧ e.seq = 7)) =
      (List.range' 0 7 ++ List.range' 8 24).map wrappedEntry by decide +kernel] at h

end TkTox
