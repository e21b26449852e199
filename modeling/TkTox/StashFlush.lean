import TkTox.LiveFlush

/-!
The flush without a session: chunks go to the stash while it has room, and the end of a text that was
stashed in part goes back into the queue.
-/

namespace TkTox

open Tiling

variable {C : Crypto} {env : ChatEnv} {t t' : Chat} {src : Bytes}

def StashKeeps (room : ℕ) (qs : List Piece) : Prop :=
  ∀ q ∈ (qs.take room).dropLast, q.bytes.length ≤ ttE2eeChunk

theorem stashKeeps_succ (r : ℕ) (q : Piece) (qs : List Piece) : StashKeeps (r + 1) (q :: qs) ↔
    (qs.take r ≠ [] → q.bytes.length ≤ ttE2eeChunk) ∧ StashKeeps r qs := by
  unfold StashKeeps
  by_cases h : qs.take r = []
  · simp [h]
  · rw [List.take_succ_cons, List.dropLast_cons_of_ne_nil h, List.forall_mem_cons]
    simp [h]

theorem textChunks_cons {q : Piece} (h : q.bytes ≠ []) : ∃ cs,
    textChunks q = ⟨q.start, q.bytes.take ttE2eeChunk⟩ :: cs ∧ (cs = [] ↔ q.bytes.length ≤ ttE2eeChunk) := by
  have hpos := List.length_pos_iff.mpr h
  obtain ⟨n, hn⟩ : ∃ n, q.bytes.length = n + 1 := ⟨q.bytes.length - 1, by omega⟩
  refine ⟨chunksFrom n (q.start + ttE2eeChunk) (q.bytes.drop ttE2eeChunk), ?_, ?_⟩
  · rw [textChunks, hn, chunksFrom, if_neg h]
  · rw [← List.drop_eq_nil_iff]
    constructor
    · intro hnil
      have hlen : (q.bytes.drop ttE2eeChunk).length ≤ n := by
        rw [List.length_drop]
        have : 0 < ttE2eeChunk := by decide
        omega
      rw [← chunksFrom_bytes (q.start + ttE2eeChunk) hlen, hnil]
      rfl
    · intro hnil
      rw [hnil]
      cases n <;> simp [chunksFrom]

theorem Covers.length {a b : ℕ} {ps : List Piece} (h : Covers a ps b) :
    b = a + (ps.flatMap Piece.bytes).length := by
  induction ps generalizing a with
  | nil => exact h.symm
  | cons p ps ih =>
    have := ih h.2
    rw [Piece.stop, h.1] at this
    rw [List.flatMap_cons, List.length_append, ← Nat.add_assoc]
    exact this

theorem joinChunks_tail {q c x : Piece} {xs : List Piece} (hq : q.Text) (hof : q.Of src)
    (he : textChunks q = c :: x :: xs) :
    (joinChunks x xs).Text ∧ (joinChunks x xs).Of src ∧ (joinChunks x xs).start = c.stop ∧
      (joinChunks x xs).stop = q.stop := by
  have hcov := textChunks_covers q
  have hbytes := textChunks_bytes q
  rw [he] at hcov hbytes
  obtain ⟨hc, hx, hxs⟩ := hcov
  have hj : (joinChunks x xs).bytes = (x :: xs).flatMap Piece.bytes := rfl
  have hin : (joinChunks x xs).bytes <:+: q.bytes := by
    rw [hj, ← hbytes]
    exact (List.suffix_append c.bytes _).isInfix
  have hxne : x.bytes ≠ [] := (textChunks_chunk (p := q) (by rw [he]; simp)).1
  refine ⟨⟨?_, cString_infix hin hq.cstr, hin.length_le.trans hq.short⟩, ?_, hx, ?_⟩
  · simp [joinChunks, hxne]
  · obtain ⟨y, z, hs, hy⟩ := hof
    refine ⟨y ++ c.bytes, z, ?_, ?_⟩
    · rw [hs, ← hbytes, hj]
      simp
    · rw [List.length_append, hy]
      change _ = x.start
      rw [hx, ← hc]
      rfl
  · have hlen : Covers x.start (x :: xs) q.stop := ⟨rfl, hxs⟩
    rw [hlen.length]
    rfl

theorem flushText_inactive (C : Crypto) (env : ChatEnv) {q : Piece} (ha : t.e2ee.active = false) (hwf : t.oq.Wf)
    (hroom : t.oq.messages.length < ttOqMaxPerFriend) (hq : q.Text) (hof : q.Of src) :
    (ttSessionPendingMax ≤ t.e2ee.pending.length ∧ (flushText C env (textChunks q) t).2 = false ∧
        Did t (flushText C env (textChunks q) t).1 [] [] []) ∨
      (t.e2ee.pending.length < ttSessionPendingMax ∧ (flushText C env (textChunks q) t).2 = true ∧
        ∃ c k, Did t (flushText C env (textChunks q) t).1 [] [c] k ∧ c.start = q.start ∧
          Sound src q.start [c] ∧
          (q.bytes.length ≤ ttE2eeChunk ∧ k = [] ∧ c.stop = q.stop ∨
            ¬ q.bytes.length ≤ ttE2eeChunk ∧ ∃ j : Piece, k = [j] ∧ j.Text ∧ j.Of src ∧ j.start = c.stop ∧
              j.stop = q.stop ∧ q.start < c.stop)) := by
  obtain ⟨cs, he, hcs⟩ := textChunks_cons hq.ne
  generalize hcdef : (⟨q.start, q.bytes.take ttE2eeChunk⟩ : Piece) = c at he
  have hcc := textChunks_chunk (p := q) (q := c) (by rw [he]; simp)
  have hstart : c.start = q.start := by rw [← hcdef]
  have hsound : Sound src q.start [c] := (textChunks_sound hof).sublist (by rw [he]; simp)
  rw [he, flushText]
  have hsend := sendChunk_inactive C env ha hwf .normal hcc.2 hcc.1
  cases hr : sendChunk C env t .normal c with
  | mk t' ans =>
    rw [hr] at hsend
    dsimp only at hsend
    obtain ⟨hfree, rfl, d⟩ | ⟨hfull, rfl, d⟩ := hsend
    · refine .inr ⟨hfree, ?_⟩
      cases cs with
      | nil =>
        have hshort := hcs.mp rfl
        refine ⟨rfl, c, [], d, hstart, hsound, .inl ⟨hshort, rfl, ?_⟩⟩
        rw [← hcdef]
        simp only [Piece.stop, List.take_of_length_le hshort]
      | cons x xs =>
        have hlong : ¬ q.bytes.length ≤ ttE2eeChunk := by
          rw [← hcs]
          simp
        obtain ⟨jt, jof, jstart, jstop⟩ := joinChunks_tail hq hof he
        have hqueue : t'.oq.messages.length = t.oq.messages.length := by
          rw [d.queue]
          simp
        have hlt : q.start < c.stop := by
          rw [← hstart]
          exact Piece.start_lt_stop hcc.1
        exact ⟨rfl, c, [joinChunks x xs], d.trans (did_requeue d.wf (by omega) jt), hstart, hsound,
          .inr ⟨hlong, _, rfl, jt, jof, jstart, jstop, hlt⟩⟩
    · exact .inl ⟨hfull, rfl, d⟩

theorem flushTexts_inactive (C : Crypto) (env : ChatEnv) {qs : List Piece} {a n : ℕ} (ha : t.e2ee.active = false) (hwf : t.oq.Wf)
    (hc : Covers a qs n) (hroom : t.oq.messages.length + qs.length ≤ ttOqMaxPerFriend)
    (hqs : ∀ q ∈ qs, q.Text ∧ q.Of src) :
    ∃ s k, Did t (flushTexts C env qs t) [] s k ∧ Sound src a (s ++ k) ∧
      (s = [] ↔ qs.take (ttSessionPendingMax - t.e2ee.pending.length) = []) ∧
      (Covers a (s ++ k) n ↔ StashKeeps (ttSessionPendingMax - t.e2ee.pending.length) qs) := by
  induction qs generalizing t a with
  | nil => exact ⟨[], [], Did.refl hwf, fun p hp => (by simp at hp), by simp, by simpa [StashKeeps] using hc⟩
  | cons q qs ih =>
    obtain ⟨rfl, hcq⟩ := hc
    obtain ⟨hq, hof⟩ := hqs q (List.mem_cons_self ..)
    have hlt := Piece.start_lt_stop hq.ne
    rw [List.length_cons] at hroom
    have hone := flushText_inactive C env ha hwf (by omega) hq hof
    rw [flushTexts]
    cases hr : flushText C env (textChunks q) t with
    | mk t' ok =>
      rw [hr] at hone
      dsimp only at hone
      obtain ⟨hfull, rfl, d⟩ | ⟨hfree, rfl, c, k', d, hstart, hsound, hrest⟩ := hone
      · have hzero : ttSessionPendingMax - t.e2ee.pending.length = 0 := by omega
        have hqueue : t'.oq.messages.length = t.oq.messages.length := by
          rw [d.queue]
          simp
        have hback := did_requeueAll (q :: qs) d.wf (by rw [hqueue]; simpa using hroom)
          fun r hr => (hqs r hr).1
        have hall : Sound src q.start (q :: qs) := sound_of_covers (a := q.start) (b := n) ⟨rfl, hcq⟩
          (fun r hr => (hqs r hr).1.ne) fun r hr => (hqs r hr).2
        rw [hzero]
        refine ⟨[], q :: qs, d.trans hback, hall, by simp, ?_⟩
        constructor
        · intro _
          simp [StashKeeps]
        · intro _
          exact ⟨rfl, hcq⟩
      · obtain ⟨r, hr'⟩ : ∃ r, ttSessionPendingMax - t.e2ee.pending.length = r + 1 :=
          ⟨ttSessionPendingMax - t.e2ee.pending.length - 1, by omega⟩
        have hpend : ttSessionPendingMax - t'.e2ee.pending.length = r := by
          rw [d.pending, List.length_append, List.length_map, List.length_singleton]
          omega
        have hqueue : t'.oq.messages.length = t.oq.messages.length + k'.length := by
          rw [d.queue, List.length_append, List.length_map]
        have hk' : k'.length ≤ 1 := by
          obtain ⟨-, rfl, -⟩ | ⟨-, j, rfl, -⟩ := hrest <;> simp
        obtain ⟨s, k, d', hs, hnil, hk⟩ := ih (d.active.trans ha) d.wf hcq (by omega)
          fun r hr => hqs r (List.mem_cons_of_mem _ hr)
        have hs' := hs.mono hlt.le
        rw [hpend] at hnil hk
        rw [hr', stashKeeps_succ]
        refine ⟨c :: s, k' ++ k, d.trans d', ?_, by simp, ?_⟩
        · have hsk : Sound src q.start k' := by
            obtain ⟨-, rfl, -⟩ | ⟨-, j, rfl, jt, jof, jstart, -, hlt'⟩ := hrest
            · intro p hp
              simp at hp
            · intro p hp
              rw [List.mem_singleton] at hp
              rw [hp]
              exact ⟨by omega, jt.ne, jof⟩
          exact (hsound.append (hs'.sublist (List.subset_append_left s k))).append
            (hsk.append (hs'.sublist (List.subset_append_right s k)))
        · obtain ⟨hshort, rfl, hstop⟩ | ⟨hlong, j, rfl, jt, -, jstart, jstop, -⟩ := hrest
          · have hcov : Covers q.start (c :: (s ++ k)) n ↔ Covers q.stop (s ++ k) n := by
              rw [← hstop]
              exact ⟨fun h => h.2, fun h => ⟨hstart, h⟩⟩
            rw [List.nil_append, List.cons_append, hcov, hk]
            exact ⟨fun h => ⟨fun _ => hshort, h⟩, And.right⟩
          · cases s with
            | nil =>
              have hcov : Covers q.start ([c] ++ ([j] ++ k)) n ↔ Covers q.stop k n := by
                rw [← jstop]
                exact ⟨fun h => h.2.2, fun h => ⟨hstart, jstart, h⟩⟩
              rw [List.nil_append] at hk
              rw [hcov, hk, hnil.mp rfl]
              simp
            | cons y ys =>
              -- the tail of the long text is queued behind texts stashed after it
              have hy := (hs y (by simp)).1
              have hne : qs.take r ≠ [] := fun h => (by simpa using hnil.mpr h)
              constructor
              · intro hcov
                have h1 := hcov.2.1
                have h2 := Piece.start_lt_stop jt.ne
                omega
              · intro hkeep
                exact absurd (hkeep.1 hne) hlong

end TkTox
