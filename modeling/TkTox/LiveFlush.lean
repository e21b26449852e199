import TkTox.FlushEffects

/-!
The flush on a live session: every text is sent chunk by chunk, and the first failure puts the text it
hit and all later ones back into the queue.
-/

namespace TkTox

open Tiling

variable {C : Crypto} {env : ChatEnv} {t t' : Chat} {src : Bytes}

section

variable (C : Crypto) (env : ChatEnv)

def sendChunks (t : Chat) (ps : List Piece) : Chat :=
  ps.foldl (fun t p => (sendChunk C env t .normal p).1) t

def AllSent : List Piece → Chat → Prop
  | [], _ => True
  | p :: ps, t =>
    (sendChunk C env t .normal p).2 = .sent ∧ AllSent ps (sendChunk C env t .normal p).1

def TextKeeps (q : Piece) (t : Chat) : Prop :=
  ∀ pre p post, textChunks q = pre ++ p :: post → AllSent C env pre t →
    (sendChunk C env (sendChunks C env t pre) .normal p).2 = .failed →
    pre = [] ∧ ¬ Taken C env (sendChunks C env t pre) p

def TextsKeep : List Piece → Chat → Prop
  | [], _ => True
  | q :: qs, t => TextKeeps C env q t ∧
    (AllSent C env (textChunks q) t → TextsKeep qs (sendChunks C env t (textChunks q)))

end

def Sound (src : Bytes) (a : ℕ) (ps : List Piece) : Prop :=
  ∀ p ∈ ps, a ≤ p.start ∧ p.bytes ≠ [] ∧ p.Of src

theorem Sound.append {a : ℕ} {ps qs : List Piece} (h : Sound src a ps) (h' : Sound src a qs) :
    Sound src a (ps ++ qs) := by
  intro p hp
  obtain hp | hp := List.mem_append.mp hp
  · exact h p hp
  · exact h' p hp

theorem Sound.mono {a b : ℕ} {ps : List Piece} (h : Sound src b ps) (hab : a ≤ b) : Sound src a ps :=
  fun p hp => ⟨hab.trans (h p hp).1, (h p hp).2⟩

theorem Sound.sublist {a : ℕ} {ps qs : List Piece} (h : Sound src a ps) (hs : qs ⊆ ps) :
    Sound src a qs := fun p hp => h p (hs hp)

theorem sound_of_covers {a b : ℕ} {ps : List Piece} (hc : Covers a ps b) (hne : ∀ p ∈ ps, p.bytes ≠ [])
    (hof : ∀ p ∈ ps, p.Of src) : Sound src a ps := by
  induction ps generalizing a with
  | nil => intro p hp; simp at hp
  | cons p ps ih =>
    have hp := Piece.start_lt_stop (hne p (List.mem_cons_self ..))
    have hrest := ih hc.2 (fun r hr => hne r (List.mem_cons_of_mem _ hr))
      fun r hr => hof r (List.mem_cons_of_mem _ hr)
    intro r hr
    rw [List.mem_cons] at hr
    obtain rfl | hr := hr
    · exact ⟨Nat.le_of_eq hc.1.symm, hne _ (List.mem_cons_self ..), hof _ (List.mem_cons_self ..)⟩
    · exact hrest.mono (hc.1 ▸ hp.le) r hr

theorem textChunks_sound {p : Piece} (hp : p.Of src) : Sound src p.start (textChunks p) :=
  sound_of_covers (textChunks_covers p) (fun _ hq => (textChunks_chunk hq).1)
    (hp.covered (textChunks_covers p) (textChunks_bytes p))

theorem flushText_active (C : Crypto) (env : ChatEnv) {ps : List Piece} (ha : t.e2ee.active = true) (hwf : t.oq.Wf)
    (hps : ∀ p ∈ ps, p.bytes.length ≤ ttE2eeChunk) :
    (AllSent C env ps t ∧ flushText C env ps t = (sendChunks C env t ps, true) ∧
      Did t (sendChunks C env t ps) ps [] []) ∨
    ∃ pre p post, ps = pre ++ p :: post ∧ AllSent C env pre t ∧
      (sendChunk C env (sendChunks C env t pre) .normal p).2 = .failed ∧
      flushText C env ps t = ((sendChunk C env (sendChunks C env t pre) .normal p).1, false) ∧
      ((¬ Taken C env (sendChunks C env t pre) p ∧ Did t (flushText C env ps t).1 pre [] []) ∨
        (Taken C env (sendChunks C env t pre) p ∧ Did t (flushText C env ps t).1 (pre ++ [p]) [] [])) := by
  induction ps generalizing t with
  | nil => exact Or.inl ⟨trivial, rfl, Did.refl hwf⟩
  | cons p ps ih =>
    unfold flushText
    cases hr : sendChunk C env t .normal p with
    | mk t' ans =>
      have hc := sendChunk_active C env ha hwf .normal (hps p (List.mem_cons_self ..))
      rw [hr] at hc
      obtain ⟨rfl, d⟩ | ⟨rfl, hn, d⟩ | ⟨rfl, ht, d⟩ := hc
      · have hstep : (sendChunk C env t .normal p).1 = t' := by rw [hr]
        have hsent : (sendChunk C env t .normal p).2 = .sent := by rw [hr]
        have hgo : ∀ qs, sendChunks C env t (p :: qs) = sendChunks C env t' qs := fun qs => by
          rw [← hstep]
          rfl
        have hall : ∀ {qs}, AllSent C env qs t' → AllSent C env (p :: qs) t := fun h => by
          refine ⟨hsent, ?_⟩
          rw [hstep]
          exact h
        dsimp only
        obtain ⟨h1, h2, h3⟩ | ⟨pre, q, post, rfl, h2, h3, h4, h5⟩ :=
          ih (d.active.trans ha) d.wf fun r hm => hps r (List.mem_cons_of_mem _ hm)
        · refine Or.inl ⟨hall h1, ?_, ?_⟩
          · rw [h2, hgo]
          · rw [hgo]
            exact d.trans h3
        · refine Or.inr ⟨p :: pre, q, post, rfl, hall h2, ?_, ?_, ?_⟩
          · rw [hgo]
            exact h3
          · rw [hgo, h4]
          · rw [hgo]
            exact h5.imp (And.imp_right d.trans) (And.imp_right d.trans)
      · refine Or.inr ⟨[], p, ps, rfl, trivial, ?_, ?_, Or.inl ⟨hn, d⟩⟩
        · simp [sendChunks, hr]
        · simp [sendChunks, hr]
      · refine Or.inr ⟨[], p, ps, rfl, trivial, ?_, ?_, Or.inr ⟨ht, d⟩⟩
        · simp [sendChunks, hr]
        · simp [sendChunks, hr]

theorem allSent_append {ps qs : List Piece} : AllSent C env (ps ++ qs) t ↔
    AllSent C env ps t ∧ AllSent C env qs (sendChunks C env t ps) := by
  induction ps generalizing t with
  | nil => simp [AllSent, sendChunks]
  | cons p ps ih =>
    change (_ ∧ AllSent C env (ps ++ qs) _) ↔ (_ ∧ _) ∧ _
    rw [ih, and_assoc]
    rfl

theorem AllSent.not_failed {ps post : List Piece} {p : Piece} (h : AllSent C env (ps ++ p :: post) t) :
    (sendChunk C env (sendChunks C env t ps) .normal p).2 ≠ .failed := by
  rw [(allSent_append.mp h).2.1]
  decide

theorem firstFailure_unique {pre post pre' post' : List Piece} {p p' : Piece}
    (he : pre ++ p :: post = pre' ++ p' :: post') (h : AllSent C env pre t) (h' : AllSent C env pre' t)
    (hf : (sendChunk C env (sendChunks C env t pre) .normal p).2 = .failed)
    (hf' : (sendChunk C env (sendChunks C env t pre') .normal p').2 = .failed) :
    pre = pre' ∧ p = p' := by
  obtain ⟨as, rfl, hp⟩ | ⟨as, rfl, hp⟩ := List.append_eq_append_iff.mp he
  · cases as with
    | nil => simp_all
    | cons x as =>
      obtain ⟨rfl, -⟩ := List.cons.inj hp
      exact absurd hf h'.not_failed
  · cases as with
    | nil => simp_all
    | cons x as =>
      obtain ⟨rfl, -⟩ := List.cons.inj hp
      exact absurd hf' h.not_failed

theorem textKeeps_of_allSent {q : Piece} (h : AllSent C env (textChunks q) t) : TextKeeps C env q t := by
  intro pre p post he _ hf
  rw [he] at h
  exact absurd hf h.not_failed

theorem textsKeep_failed {q : Piece} {qs pre post : List Piece} {p : Piece}
    (he : textChunks q = pre ++ p :: post) (h : AllSent C env pre t)
    (hf : (sendChunk C env (sendChunks C env t pre) .normal p).2 = .failed) :
    TextsKeep C env (q :: qs) t ↔ pre = [] ∧ ¬ Taken C env (sendChunks C env t pre) p := by
  constructor
  · intro hk
    exact hk.1 pre p post he h hf
  · intro hk
    constructor
    · intro pre' p' post' he' h' hf'
      obtain ⟨rfl, rfl⟩ := firstFailure_unique (he.symm.trans he') h h' hf hf'
      exact hk
    · intro hall
      rw [he] at hall
      exact absurd hf hall.not_failed

theorem flushTexts_active (C : Crypto) (env : ChatEnv) {qs : List Piece} {a n : ℕ} (ha : t.e2ee.active = true) (hwf : t.oq.Wf)
    (hc : Covers a qs n) (hroom : t.oq.messages.length + qs.length ≤ ttOqMaxPerFriend)
    (hqs : ∀ q ∈ qs, q.Text ∧ q.Of src) :
    ∃ h k, Did t (flushTexts C env qs t) h [] k ∧ Sound src a (h ++ k) ∧
      (Covers a (h ++ k) n ↔ TextsKeep C env qs t) := by
  induction qs generalizing t a with
  | nil => exact ⟨[], [], Did.refl hwf, fun p hp => (by simp at hp), by simpa [TextsKeep] using hc⟩
  | cons q qs ih =>
    obtain ⟨rfl, hcq⟩ := hc
    have hq := hqs q (List.mem_cons_self ..)
    have hlt := Piece.start_lt_stop hq.1.ne
    have hchunks := textChunks_sound hq.2
    have hall : Sound src q.start (q :: qs) := sound_of_covers (a := q.start) (b := n) ⟨rfl, hcq⟩
      (fun r hr => (hqs r hr).1.ne) fun r hr => (hqs r hr).2
    unfold flushTexts
    obtain ⟨h1, h2, h3⟩ | ⟨pre, p, post, he, h2, h3, h4, h5⟩ := flushText_active C env
      ha hwf fun r hr => (textChunks_chunk hr).2
    · rw [h2]
      have hroom' : (sendChunks C env t (textChunks q)).oq.messages.length + qs.length ≤
          ttOqMaxPerFriend := by
        rw [h3.queue]
        simp only [List.length_cons] at hroom
        simp only [List.map_nil, List.append_nil]
        omega
      obtain ⟨h, k, d, hs, hk⟩ := ih (h3.active.trans ha) h3.wf hcq hroom'
        fun r hr => hqs r (List.mem_cons_of_mem _ hr)
      refine ⟨textChunks q ++ h, k, h3.trans d, ?_, ?_⟩
      · rw [List.append_assoc]
        exact hchunks.append (hs.mono hlt.le)
      · rw [List.append_assoc, (textChunks_covers q).append_iff, hk]
        constructor
        · intro hqs'
          exact ⟨textKeeps_of_allSent h1, fun _ => hqs'⟩
        · intro hqs'
          exact hqs'.2 h1
    · have hpre : Covers q.start pre p.start := by
        obtain ⟨m, hm, hp⟩ := tiles_append.mp (he ▸ textChunks_covers q)
        rwa [hp.1]
      have hsound : Sound src q.start (pre ++ [p]) := by
        apply hchunks.sublist
        rw [he]
        intro r hr
        simp only [List.mem_append, List.mem_singleton] at hr
        simp only [List.mem_append, List.mem_cons]
        tauto
      have hp := hsound p (by simp)
      have hplt := Piece.start_lt_stop hp.2.1
      have hrest : ∀ {t' : Chat} {h : List Piece}, Did t t' h [] [] →
          Did t ((q :: qs).foldl Chat.requeue t') h [] (q :: qs) := fun {t' h} d => by
        have hlen : t'.oq.messages.length + (q :: qs).length ≤ ttOqMaxPerFriend := by
          rw [d.queue]
          simpa using hroom
        have := d.trans (did_requeueAll _ d.wf hlen fun r hr => (hqs r hr).1)
        simpa using this
      rw [h4] at h5 ⊢
      dsimp only at h5 ⊢
      rw [textsKeep_failed he h2 h3]
      obtain ⟨hn, d⟩ | ⟨ht, d⟩ := h5
      · refine ⟨pre, q :: qs, hrest d, (hsound.sublist (by simp)).append hall, ?_⟩
        rw [hpre.append_iff]
        constructor
        · intro hcov
          refine ⟨?_, hn⟩
          by_contra hne
          obtain ⟨x, xs, rfl⟩ := List.exists_cons_of_ne_nil hne
          have hx := Piece.start_lt_stop (hsound x (by simp)).2.1
          have hxp : x.stop ≤ p.start := Tiles.le (fun r hr =>
            (Piece.start_lt_stop (hsound r (by simp [hr])).2.1).le) hpre.2
          have h1 := hpre.1
          have h2 := hcov.1
          omega
        · rintro ⟨rfl, -⟩
          exact ⟨hpre, hcq⟩
      · refine ⟨pre ++ [p], q :: qs, hrest d, hsound.append hall, ?_⟩
        have hpre' : Covers q.start (pre ++ [p]) p.stop := hpre.append ⟨rfl, rfl⟩
        rw [hpre'.append_iff]
        constructor
        · intro hcov
          have h1 := hcov.1
          omega
        · rintro ⟨-, hnt⟩
          exact absurd ht hnt

end TkTox
