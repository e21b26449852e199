import TkTox.Bytes

/-!
Readers that store as they read. A reader of a record checks how much is left, takes bytes and
writes fields at once, so a record that turns out to be malformed has already left its first
fields behind. The log of what each record wrote decides what a table of slots looks like
afterwards.
-/

namespace TkTox

inductive Ended (α : Type)
  -- bytes past the end were read
  | fault
  | fail
  | ok (a : α) (rest : Bytes)

def Scan (F α : Type) := Bytes → List (F × Bytes) × Ended α

namespace Scan

variable {F α β : Type} {n k : ℕ} {m : Scan F α} {g : α → Scan F β} {S S' : List F}
  {Q : F → Bytes → Prop}

instance monad : Monad (Scan F) where
  pure a := fun p => ([], .ok a p)
  bind m g := fun p =>
    match m p with
    | (w, .ok a rest) => (w ++ (g a rest).1, (g a rest).2)
    | (w, .fail) => (w, .fail)
    | (w, .fault) => (w, .fault)

def fail : Scan F α := fun _ => ([], .fail)

def need (n : ℕ) : Scan F Unit := fun p => ([], if p.length < n then .fail else .ok () p)

-- `n` bytes, checked by nobody
def take (n : ℕ) : Scan F Bytes := fun p =>
  ([], if p.length < n then .fault else .ok (p.take n) (p.drop n))

def store (f : F) (v : Bytes) : Scan F Unit := fun p => ([(f, v)], .ok () p)

def blob (f : F) (n : ℕ) : Scan F Unit := do
  let b ← take n
  store f b

def flag (f : F) : Scan F Unit := do
  let b ← take 1
  store f [if b.getD 0 0 ≠ 0 then 1 else 0]

def count (f : F) : Scan F ℕ := do
  let b ← take 2
  store f b
  pure (readU16 b)

def Safe (n : ℕ) (m : Scan F α) : Prop := ∀ p, n ≤ p.length → (m p).2 ≠ .fault

theorem bind_eq (m : Scan F α) (g : α → Scan F β) (p : Bytes) : (m >>= g) p =
    match m p with
    | (w, .ok a rest) => (w ++ (g a rest).1, (g a rest).2)
    | (w, .fail) => (w, .fail)
    | (w, .fault) => (w, .fault) := rfl

def Takes (k : ℕ) (m : Scan F α) : Prop :=
  ∀ p, k ≤ p.length → ∃ w a, m p = (w, .ok a (p.drop k))

theorem takes_take (k : ℕ) : Takes k (take k : Scan F Bytes) := by
  intro p hp
  exact ⟨[], p.take k, by rw [take, if_neg (not_lt.mpr hp)]⟩

theorem Takes.bind_store {m : Scan F Bytes} (h : Takes k m) (f : F) (v : Bytes → Bytes) :
    Takes k (m >>= fun b => store f (v b)) := by
  intro p hp
  obtain ⟨w, a, hm⟩ := h p hp
  exact ⟨_, _, by rw [bind_eq, hm]; rfl⟩

theorem takes_blob (f : F) (n : ℕ) : Takes n (blob f n) := (takes_take n).bind_store f id

theorem takes_flag (f : F) : Takes 1 (flag f) :=
  (takes_take 1).bind_store f fun b => [if b.getD 0 0 ≠ 0 then 1 else 0]

theorem safe_pure (a : α) : Safe n (pure a : Scan F α) := fun _ _ h => by cases h

theorem Takes.safe (h : Takes k m) (hk : k ≤ n) : Safe n m := by
  intro p hp
  obtain ⟨w, a, hm⟩ := h p (hk.trans hp)
  rw [hm]
  simp

theorem Takes.safe_bind (h : Takes k m) (hk : k ≤ n) (hg : ∀ a, Safe (n - k) (g a)) :
    Safe n (m >>= g) := by
  intro p hp
  obtain ⟨w, a, hm⟩ := h p (hk.trans hp)
  rw [bind_eq, hm]
  exact hg a _ (by rw [List.length_drop]; omega)

theorem Safe.bind (h : Safe n m) (hg : ∀ a, Safe 0 (g a)) : Safe n (m >>= g) := by
  intro p hp
  have hm := h p hp
  rw [bind_eq]
  match hr : m p with
  | (w, .ok a rest) => exact hg a rest (Nat.zero_le _)
  | (w, .fail) => simp
  | (w, .fault) =>
    rw [hr] at hm
    exact absurd rfl hm

theorem safe_need {g : Unit → Scan F β} (h : Safe n (g ())) : Safe 0 (need n >>= g) := by
  intro p _
  rw [bind_eq, need]
  split_ifs with hlt
  · simp
  · exact h p (not_lt.mp hlt)

theorem need_bind_snd (n : ℕ) (g : Unit → Scan F β) (p : Bytes) :
    ((need n >>= g) p).2 = if p.length < n then .fail else (g () p).2 := by
  rw [bind_eq, need]
  split_ifs <;> rfl

theorem store_bind_snd (f : F) (v : Bytes) (g : Unit → Scan F β) (p : Bytes) :
    ((store f v >>= g) p).2 = (g () p).2 := rfl

theorem take_bind_snd {g : Bytes → Scan F β} {p : Bytes} (h : n ≤ p.length) :
    ((take n >>= g) p).2 = (g (p.take n) (p.drop n)).2 := by
  rw [bind_eq, take, if_neg (not_lt.mpr h)]

theorem blob_snd {f : F} {p : Bytes} (h : n ≤ p.length) :
    (blob f n p).2 = .ok () (p.drop n) := take_bind_snd h

theorem flag_snd {f : F} {p : Bytes} (h : 1 ≤ p.length) :
    (flag f p).2 = .ok () (p.drop 1) := take_bind_snd h

theorem bind_snd {a : α} {p rest : Bytes} (h : (m p).2 = .ok a rest) :
    ((m >>= g) p).2 = (g a rest).2 := by
  rw [bind_eq]
  match hr : m p with
  | (w, e) =>
    rw [hr] at h
    cases h
    rfl

theorem bind_snd_fail {p : Bytes} (h : (m p).2 = .fail) : ((m >>= g) p).2 = .fail := by
  rw [bind_eq]
  match hr : m p with
  | (w, e) =>
    rw [hr] at h
    cases h
    rfl

theorem blob_bind_snd {f : F} {g : Unit → Scan F β} {p : Bytes} (h : n ≤ p.length) :
    ((blob f n >>= g) p).2 = (g () (p.drop n)).2 := bind_snd (blob_snd h)

theorem flag_bind_snd {f : F} {g : Unit → Scan F β} {p : Bytes} (h : 1 ≤ p.length) :
    ((flag f >>= g) p).2 = (g () (p.drop 1)).2 := bind_snd (flag_snd h)

theorem count_bind_snd {f : F} {g : ℕ → Scan F β} {p : Bytes} (h : 2 ≤ p.length) :
    ((count f >>= g) p).2 = (g (readU16 (p.take 2)) (p.drop 2)).2 := by
  apply bind_snd
  rw [count, take_bind_snd h]
  rfl

def Stores (S : List F) (m : Scan F α) : Prop :=
  ∀ p w a rest, m p = (w, .ok a rest) → ∀ f ∈ S, f ∈ w.map Prod.fst

def Only (Q : F → Bytes → Prop) (m : Scan F α) : Prop :=
  ∀ p w a rest, m p = (w, .ok a rest) → ∀ e ∈ w, Q e.1 e.2

theorem bind_ok {p : Bytes} {w : List (F × Bytes)} {b : β} {rest : Bytes}
    (h : (m >>= g) p = (w, .ok b rest)) : ∃ w₁ a r w₂, m p = (w₁, .ok a r) ∧
      g a r = (w₂, .ok b rest) ∧ w = w₁ ++ w₂ := by
  rw [bind_eq] at h
  match hr : m p with
  | (w₁, .ok a r) =>
    rw [hr] at h
    cases hg : g a r with
    | mk w₂ e =>
      dsimp only at h
      rw [hg] at h
      cases h
      exact ⟨w₁, a, r, w₂, rfl, hg, rfl⟩
  | (w₁, .fail) =>
    rw [hr] at h
    cases h
  | (w₁, .fault) =>
    rw [hr] at h
    cases h

theorem stored_left {p : Bytes} {w : List (F × Bytes)} {a : α} {rest : Bytes} {f : F}
    (h : m p = (w, .ok a rest)) (hf : f ∈ w.map Prod.fst) : f ∈ ((m >>= g) p).1.map Prod.fst := by
  rw [bind_eq, h, List.map_append]
  exact List.mem_append_left _ hf

theorem stored_right {p : Bytes} {w : List (F × Bytes)} {a : α} {rest : Bytes} {f : F}
    (h : m p = (w, .ok a rest)) (hf : f ∈ (g a rest).1.map Prod.fst) :
    f ∈ ((m >>= g) p).1.map Prod.fst := by
  rw [bind_eq, h, List.map_append]
  exact List.mem_append_right _ hf

theorem Stores.bind (h : Stores S m) (hg : ∀ a, Stores S' (g a)) : Stores (S ++ S') (m >>= g) := by
  intro p w b rest hb f hf
  obtain ⟨w₁, a, r, w₂, hm, hga, rfl⟩ := bind_ok hb
  rw [List.map_append, List.mem_append]
  obtain hf | hf := List.mem_append.mp hf
  · exact Or.inl (h p w₁ a r hm f hf)
  · exact Or.inr (hg a r w₂ b rest hga f hf)

theorem stores_nil (m : Scan F α) : Stores [] m := fun _ _ _ _ _ _ hf => by cases hf

theorem stores_store (f : F) (v : Bytes) : Stores [f] (store f v) := by
  intro p w a rest h f' hf
  cases h
  exact hf

theorem stores_blob (f : F) (n : ℕ) : Stores [f] (blob f n) :=
  (stores_nil _).bind fun b => stores_store f b

theorem stores_count (f : F) : Stores [f] (count f) :=
  (stores_nil _).bind fun b => (stores_store f b).bind fun _ => stores_nil _

theorem Only.bind (h : Only Q m) (hg : ∀ a, Only Q (g a)) : Only Q (m >>= g) := by
  intro p w b rest hb e he
  obtain ⟨w₁, a, r, w₂, hm, hga, rfl⟩ := bind_ok hb
  obtain he | he := List.mem_append.mp he
  · exact h p w₁ a r hm e he
  · exact hg a r w₂ b rest hga e he

theorem only_silent (h : ∀ p, (m p).1 = []) : Only Q m := by
  intro p w a rest hm e he
  have hw := congrArg Prod.fst hm
  rw [h p] at hw
  subst hw
  cases he

theorem only_store {f : F} {v : Bytes} (h : Q f v) : Only Q (store f v) := by
  intro p w a rest hm e he
  cases hm
  rw [List.mem_singleton] at he
  rw [he]
  exact h

theorem only_blob {f : F} (h : ∀ v, Q f v) (n : ℕ) : Only Q (blob f n) :=
  (only_silent fun _ => rfl).bind fun b => only_store (h b)

theorem only_flag {f : F} (h : ∀ v, Q f v) : Only Q (flag f) :=
  (only_silent fun _ => rfl).bind fun _ => only_store (h _)

theorem count_ok {f : F} {p : Bytes} {w : List (F × Bytes)} {n : ℕ} {rest : Bytes}
    (h : count f p = (w, .ok n rest)) : ∃ v, w = [(f, v)] ∧ n = readU16 v := by
  rw [count, bind_eq, take] at h
  split_ifs at h
  · cases h
  · cases h
    exact ⟨_, rfl, rfl⟩

-- a count that is checked after it has been stored
theorem only_checked {f : F} {limit : ℕ} (h : ∀ v, readU16 v ≤ limit → Q f v) {g : ℕ → Scan F β}
    (hg : ∀ n, Only Q (g n)) :
    Only Q (count f >>= fun n => if n > limit then fail else g n) := by
  intro p w b rest hb e he
  obtain ⟨w₁, n, r, w₂, hm, hga, rfl⟩ := bind_ok hb
  obtain ⟨v, rfl, rfl⟩ := count_ok hm
  split_ifs at hga with hlim
  · cases hga
  · obtain he | he := List.mem_append.mp he
    · rw [List.mem_singleton] at he
      rw [he]
      exact h v (not_lt.mp hlim)
    · exact hg _ r w₂ b rest hga e he

end Scan

/-! ### A table of slots -/

variable {I F : Type} [DecidableEq I] [DecidableEq F]

abbrev Slots (I F : Type) := I → F → Bytes

def writeFields (s : F → Bytes) (w : List (F × Bytes)) : F → Bytes :=
  w.foldl (fun s e => Function.update s e.1 e.2) s

-- the value a log leaves in a field
def lastStored (w : List (F × Bytes)) (f : F) : Option Bytes :=
  (w.reverse.find? fun e => decide (e.1 = f)).map Prod.snd

structure Turn (I F : Type) where
  slot : I
  writes : List (F × Bytes)
  complete : Bool

def replay (e : Slots I F) (turns : List (Turn I F)) : Slots I F :=
  turns.foldl (fun e t => Function.update e t.slot (writeFields (e t.slot) t.writes)) e

def writesTo (turns : List (Turn I F)) (i : I) : List (F × Bytes) :=
  (turns.filter fun t => decide (t.slot = i)).flatMap Turn.writes

def InForce (t : Turn I F) (s : F → Bytes) : Prop := ∀ f v, lastStored t.writes f = some v → s f = v

theorem lastStored_concat (w : List (F × Bytes)) (e : F × Bytes) (f : F) :
    lastStored (w ++ [e]) f = if e.1 = f then some e.2 else lastStored w f := by
  rw [lastStored, List.reverse_append, List.reverse_singleton, List.singleton_append]
  split_ifs with h
  · rw [List.find?_cons_of_pos (by simpa using h)]
    rfl
  · rw [List.find?_cons_of_neg (by simpa using h)]
    rfl

theorem writeFields_apply (s : F → Bytes) (w : List (F × Bytes)) (f : F) :
    writeFields s w f = (lastStored w f).getD (s f) := by
  induction w using List.reverseRecOn with
  | nil => rfl
  | append_singleton w e ih =>
    rw [lastStored_concat, writeFields, List.foldl_append]
    change Function.update (writeFields s w) e.1 e.2 f = _
    by_cases h : e.1 = f
    · subst h
      rw [Function.update_self, if_pos rfl]
      rfl
    · rw [Function.update_of_ne (Ne.symm h), ih, if_neg h]

theorem lastStored_append (w w' : List (F × Bytes)) (f : F) :
    lastStored (w ++ w') f = (lastStored w' f).or (lastStored w f) := by
  induction w' using List.reverseRecOn with
  | nil => rw [List.append_nil]; rfl
  | append_singleton w' e ih =>
    rw [← List.append_assoc, lastStored_concat, lastStored_concat, ih]
    split_ifs <;> rfl

theorem lastStored_eq_none {w : List (F × Bytes)} {f : F} :
    lastStored w f = none ↔ f ∉ w.map Prod.fst := by
  rw [lastStored, Option.map_eq_none_iff, List.find?_eq_none, List.mem_map]
  constructor
  · rintro h ⟨e, he, rfl⟩
    exact h e (List.mem_reverse.mpr he) (by simp)
  · intro h e he hf
    exact h ⟨e, List.mem_reverse.mp he, of_decide_eq_true hf⟩

omit [DecidableEq F] in
theorem writesTo_concat (turns : List (Turn I F)) (t : Turn I F) (i : I) :
    writesTo (turns ++ [t]) i = writesTo turns i ++ if t.slot = i then t.writes else [] := by
  rw [writesTo, List.filter_append, List.flatMap_append, ← writesTo]
  congr 1
  by_cases h : t.slot = i
  · simp [h]
  · simp [h]

theorem mem_of_lastStored {w : List (F × Bytes)} {f : F} {v : Bytes}
    (h : lastStored w f = some v) : (f, v) ∈ w := by
  rw [lastStored, Option.map_eq_some_iff] at h
  obtain ⟨e, he, rfl⟩ := h
  have hf := List.find?_some he
  rw [← of_decide_eq_true hf]
  exact List.mem_reverse.mp (List.mem_of_find?_eq_some he)

theorem replay_concat (e : Slots I F) (turns : List (Turn I F)) (t : Turn I F) :
    replay e (turns ++ [t]) = Function.update (replay e turns) t.slot
      (writeFields (replay e turns t.slot) t.writes) := by
  rw [replay, List.foldl_append]
  rfl

theorem replay_apply (e : Slots I F) (turns : List (Turn I F)) (i : I) (f : F) :
    replay e turns i f = (lastStored (writesTo turns i) f).getD (e i f) := by
  induction turns using List.reverseRecOn with
  | nil => rfl
  | append_singleton turns t ih =>
    rw [replay_concat, writesTo_concat]
    by_cases h : t.slot = i
    · subst h
      rw [Function.update_self, writeFields_apply, ih, if_pos rfl, lastStored_append]
      cases lastStored t.writes f <;> rfl
    · rw [Function.update_of_ne (Ne.symm h), ih, if_neg h, List.append_nil]

theorem lastStored_writesTo_ne_none {turns : List (Turn I F)} {t : Turn I F} {f : F}
    (ht : t ∈ turns) (hf : lastStored t.writes f ≠ none) :
    lastStored (writesTo turns t.slot) f ≠ none := by
  intro h
  apply hf
  rw [lastStored_eq_none] at h ⊢
  intro hm
  apply h
  obtain ⟨e, he, hef⟩ := List.mem_map.mp hm
  exact List.mem_map.mpr ⟨e, List.mem_flatMap.mpr ⟨t, by simpa using ht, he⟩, hef⟩

def AllOrNothing (e : Slots I F) (turns : List (Turn I F)) : Prop :=
  ∀ i, replay e turns i = e i ∨
    ∃ t ∈ turns, t.complete = true ∧ t.slot = i ∧ InForce t (replay e turns i)

/-- An incomplete turn stored nothing, or what a complete turn of its slot stored is what the log
leaves. -/
def Harmless (turns : List (Turn I F)) : Prop :=
  ∀ t ∈ turns, t.complete = false → t.writes ≠ [] → ∃ t' ∈ turns, t'.complete = true ∧
    t'.slot = t.slot ∧ ∀ f v, lastStored t'.writes f = some v →
      lastStored (writesTo turns t.slot) f = some v

theorem replay_unspoilt (e : Slots I F) {turns : List (Turn I F)} {i : I}
    (h : ∀ t ∈ turns, t.slot = i → t.complete = false → t.writes = []) :
    replay e turns i = e i ∨
      ∃ t ∈ turns, t.complete = true ∧ t.slot = i ∧ InForce t (replay e turns i) := by
  induction turns using List.reverseRecOn with
  | nil => exact Or.inl rfl
  | append_singleton turns t ih =>
    have hlast : t ∈ turns ++ [t] := List.mem_append_right _ (List.mem_singleton_self t)
    have hinit := ih fun t' ht' => h t' (List.mem_append_left _ ht')
    rw [replay_concat]
    by_cases hi : t.slot = i
    · subst hi
      rw [Function.update_self]
      cases hc : t.complete with
      | true =>
        refine Or.inr ⟨t, hlast, hc, rfl, ?_⟩
        intro f v hv
        rw [writeFields_apply, hv, Option.getD_some]
      | false =>
        rw [h t hlast rfl hc]
        obtain hsame | ⟨t', ht', hrest⟩ := hinit
        · exact Or.inl hsame
        · exact Or.inr ⟨t', List.mem_append_left _ ht', hrest⟩
    · rw [Function.update_of_ne (Ne.symm hi)]
      obtain hsame | ⟨t', ht', hrest⟩ := hinit
      · exact Or.inl hsame
      · exact Or.inr ⟨t', List.mem_append_left _ ht', hrest⟩

theorem Harmless.allOrNothing {turns : List (Turn I F)} (h : Harmless turns) (e : Slots I F) :
    AllOrNothing e turns := by
  intro i
  by_cases hi : ∀ t ∈ turns, t.slot = i → t.complete = false → t.writes = []
  · exact replay_unspoilt e hi
  · push Not at hi
    obtain ⟨t, ht, rfl, hc, hw⟩ := hi
    obtain ⟨t', ht', hc', hslot, hforce⟩ := h t ht hc hw
    refine Or.inr ⟨t', ht', hc', hslot, ?_⟩
    intro f v hv
    rw [replay_apply, hforce f v hv, Option.getD_some]

theorem harmless_of_allOrNothing {turns : List (Turn I F)} {Q : F → Bytes → Prop} {z : F → Bytes}
    (hz : ∀ f, Q f (z f)) {r : F} (hr : ∀ v, ∃ b, b ≠ v ∧ Q r b)
    (hw : ∀ t ∈ turns, t.writes ≠ [] → r ∈ t.writes.map Prod.fst)
    (h : ∀ e : Slots I F, (∀ i f, Q f (e i f)) → AllOrNothing e turns) : Harmless turns := by
  intro t ht _ hwt
  have hroot : lastStored (writesTo turns t.slot) r ≠ none := by
    apply lastStored_writesTo_ne_none ht
    rw [ne_eq, lastStored_eq_none, not_not]
    exact hw t ht hwt
  obtain ⟨v, hv⟩ := Option.ne_none_iff_exists'.mp hroot
  obtain ⟨b, hb, hQ⟩ := hr v
  let e : Slots I F := fun _ => Function.update z r b
  have he : ∀ i f, Q f (e i f) := by
    intro i f
    by_cases hf : f = r
    · subst hf
      simpa [e] using hQ
    · simpa [e, hf] using hz f
  obtain hsame | ⟨t', ht', hc', hslot, hforce⟩ := h e he t.slot
  · apply absurd (congrFun hsame r)
    rw [replay_apply, hv, Option.getD_some]
    simpa [e] using hb.symm
  · refine ⟨t', ht', hc', hslot, ?_⟩
    intro f w hw'
    have hne : lastStored (writesTo turns t.slot) f ≠ none := by
      rw [← hslot]
      apply lastStored_writesTo_ne_none ht'
      rw [hw']
      simp
    obtain ⟨u, hu⟩ := Option.ne_none_iff_exists'.mp hne
    have hval := hforce f w hw'
    rw [replay_apply, hu, Option.getD_some] at hval
    rw [hu, hval]

end TkTox
